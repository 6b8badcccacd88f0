import OpsControlPlane.Lib.CrashLogic

/-!
# Operations that may raise

`fallible` is an interface whose operations answer or raise, and `Prog.request` asks one of them and
raises as it raises. `Prog.Ensures` says that the crash condition holds wherever the program may be
found, whatever it raises, and what holds when it returns; its rules follow the program.
-/

namespace Calls

/-- Operations that answer or raise. -/
abbrev fallible {Op : Type} (Reply : Op → Type) (ε : Type) : Interface :=
  ⟨Op, fun o => Except ε (Reply o)⟩

namespace Prog

section request

variable {Op ε : Type} {Reply : Op → Type}

/-- Ask an operation, and raise as it raises. -/
def request (o : Op) : Prog (fallible Reply ε) ε (Reply o) := do
  let r : Except ε (Reply o) ← perform (I := fallible Reply ε) o
  ofExcept r

end request

section ensures

variable {I : Interface} {ε α β σ X : Type} {act : (o : I.Op) → X → σ → I.Ans o × σ}
  {C : σ → Prop} {s : σ}

/-- The crash condition holds wherever the program may be found, and what holds when it returns. -/
def Ensures (act : (o : I.Op) → X → σ → I.Ans o × σ) (C : σ → Prop) (p : Prog I ε α)
    (R : α → σ → Prop) (s : σ) : Prop :=
  Wp act C p (fun r t => ∀ a, r = .ok a → R a t) s

variable {p : Prog I ε α} {R : α → σ → Prop}

theorem Ensures.crash {t : σ} (h : Ensures act C p R s) (hr : Reaches act p s t) : C t :=
  Wp.crash h hr

theorem Ensures.mono {R' : α → σ → Prop} (h : Ensures act C p R s)
    (hR : ∀ a t, C t → R a t → R' a t) : Ensures act C p R' s :=
  Wp.mono h fun _ t hC hr a ha => hR a t hC (hr a ha)

theorem ensures_pure {a : α} (hC : C s) (hR : R a s) : Ensures act C (pure a : Prog I ε α) R s :=
  ⟨hC, fun _ hb => Except.ok.inj hb ▸ hR⟩

theorem ensures_fail {e : ε} (hC : C s) : Ensures act C (fail e : Prog I ε α) R s :=
  ⟨hC, fun _ hb => by cases hb⟩

theorem ensures_ofExcept {r : Except ε α} (hC : C s) (hR : ∀ a, r = .ok a → R a s) :
    Ensures act C (ofExcept r) R s := by
  cases r with
  | ok a => exact ensures_pure hC (hR a rfl)
  | error e => exact ensures_fail hC

variable {f : α → Prog I ε β}

theorem ensures_bind {R : β → σ → Prop}
    (h : Ensures act C p (fun a t => Ensures act C (f a) R t) s) : Ensures act C (p >>= f) R s :=
  wp_bind (Wp.mono h fun r _ hC hr => match r with
    | .ok a => hr a rfl
    | .error _ => fun _ hb => by cases hb)

theorem Ensures.then {R' : β → σ → Prop} (hp : Ensures act C p R s)
    (hf : ∀ a t, C t → R a t → Ensures act C (f a) R' t) : Ensures act C (p >>= f) R' s :=
  ensures_bind (hp.mono hf)

theorem ensures_attempt {R : Except ε α → σ → Prop} (h : Wp act C p R s) :
    Ensures act C (attempt p) R s :=
  wp_attempt (h.mono fun _ _ _ hr _ ha => Except.ok.inj ha ▸ hr)

theorem ensures_ite {c : Prop} [Decidable c] {q : Prog I ε α} (hp : c → Ensures act C p R s)
    (hq : ¬c → Ensures act C q R s) : Ensures act C (if c then p else q) R s := by
  split
  · next h => exact hp h
  · next h => exact hq h

end ensures

section settles

variable {I : Interface} {ε α β σ X : Type} {act : (o : I.Op) → X → σ → I.Ans o × σ}
  {C : σ → Prop} {E : ε → Prop} {s : σ}

/-- The crash condition holds wherever the program may be found, what holds when it returns, and
what it may raise. -/
def Settles (act : (o : I.Op) → X → σ → I.Ans o × σ) (C : σ → Prop) (E : ε → Prop)
    (p : Prog I ε α) (R : α → σ → Prop) (s : σ) : Prop :=
  Wp act C p (fun r t => (∀ a, r = .ok a → R a t) ∧ ∀ e, r = .error e → E e) s

variable {R : α → σ → Prop}

theorem settles_pure {a : α} (hC : C s) (hR : R a s) : Settles act C E (pure a : Prog I ε α) R s :=
  ⟨hC, fun _ hb => Except.ok.inj hb ▸ hR, fun _ he => by cases he⟩

theorem settles_fail {e : ε} (hC : C s) (hE : E e) : Settles act C E (fail e : Prog I ε α) R s :=
  ⟨hC, fun _ hb => (by cases hb), fun _ he => Except.error.inj he ▸ hE⟩

variable {p : Prog I ε α}

theorem Settles.mono {R' : α → σ → Prop} (h : Settles act C E p R s)
    (hR : ∀ a t, C t → R a t → R' a t) : Settles act C E p R' s :=
  Wp.mono h fun _ t hC hr => ⟨fun a ha => hR a t hC (hr.1 a ha), hr.2⟩

variable {f : α → Prog I ε β}

theorem settles_bind {R : β → σ → Prop}
    (h : Settles act C E p (fun a t => Settles act C E (f a) R t) s) :
    Settles act C E (p >>= f) R s :=
  wp_bind (Wp.mono h fun r _ _ hr => match r with
    | .ok a => hr.1 a rfl
    | .error e => ⟨fun _ hb => (by cases hb), fun _ he => Except.error.inj he ▸ hr.2 e rfl⟩)

theorem Settles.then {R' : β → σ → Prop} (hp : Settles act C E p R s)
    (hf : ∀ a t, C t → R a t → Settles act C E (f a) R' t) : Settles act C E (p >>= f) R' s :=
  settles_bind (hp.mono hf)

theorem settles_ite {c : Prop} [Decidable c] {q : Prog I ε α} (hp : c → Settles act C E p R s)
    (hq : ¬c → Settles act C E q R s) : Settles act C E (if c then p else q) R s := by
  split
  · next h => exact hp h
  · next h => exact hq h

theorem Settles.weaken {D : σ → Prop} (h : Settles act C E p R s) (hC : ∀ t, C t → D t) :
    Settles act D E p (fun a t => C t ∧ R a t) s :=
  (Wp.weaken h hC).mono fun _ _ _ hr => ⟨fun a ha => ⟨hr.1, hr.2.1 a ha⟩, hr.2.2⟩

theorem settles_attempt {D : ε → Prop} {R : Except ε α → σ → Prop}
    (h : Settles act C D p (fun a t => R (.ok a) t) s) (hR : ∀ e t, C t → D e → R (.error e) t) :
    Settles act C E (attempt p) R s :=
  wp_attempt (Wp.mono h fun r t hC hr => ⟨fun r' hr' => by
    obtain rfl := Except.ok.inj hr'
    cases r with
    | ok a => exact hr.1 a rfl
    | error e => exact hR e t hC (hr.2 e rfl), fun _ he => by cases he⟩)

end settles

section request

variable {Op ε σ X : Type} {Reply : Op → Type}
  {act : (o : Op) → X → σ → Except ε (Reply o) × σ} {C : σ → Prop} {s : σ}

theorem ensures_request {o : Op} {R : Reply o → σ → Prop} (hC : C s)
    (h : ∀ x, C (act o x s).2 ∧ ∀ a, (act o x s).1 = .ok a → R a (act o x s).2) :
    Ensures (I := fallible Reply ε) act C (request o) R s :=
  wp_op (I := fallible Reply ε) hC h

theorem settles_op {o : Op} {E : ε → Prop} {R : Reply o → σ → Prop} (hC : C s)
    (h : ∀ x, C (act o x s).2 ∧ (∀ a, (act o x s).1 = .ok a → R a (act o x s).2) ∧
      ∀ e, (act o x s).1 = .error e → E e) :
    Settles (I := fallible Reply ε) act C E (request o) R s :=
  wp_op (I := fallible Reply ε) hC h

end request

end Prog

end Calls
