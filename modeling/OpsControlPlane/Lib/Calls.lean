import Mathlib.Data.List.Basic
import Mathlib.Algebra.BigOperators.Group.List.Basic
import Mathlib.Tactic

/-!
# Calls over a shared store

Programs that ask an environment one operation at a time, and a pool of such programs
over one store. A move starts a call, lets one call perform its next operation, or
crashes a call between two operations; an operation is atomic, so the moves are the
interleavings.

A call carries what it has asked and been answered. `Prog.Trail` is the rule for what a
program asks after what it has been told, and `Run.trail` carries it to every call of
every run. `Run.store` is the invariant rule for the store, `Run.sound` the one for
operations that are allowed by what the call was told and for what an answer goes on to
say of the store, and `Run.count_le` bounds what is asked in the whole run by what was
granted in it.
-/

namespace Calls

structure Interface where
  Op : Type
  Ans : Op → Type

/-- A program that returns, fails, or asks and goes on with the answer. -/
inductive Prog (I : Interface) (ε α : Type) where
  | ret (a : α)
  | fail (e : ε)
  | ask (o : I.Op) (k : I.Ans o → Prog I ε α)

variable {I : Interface} {ε α β : Type}

/-- A computation that goes on returns what its parts return. -/
theorem bind_eq_ok {x : Except ε α} {f : α → Except ε β} {b : β} :
    (x >>= f) = .ok b ↔ ∃ a, x = .ok a ∧ f a = .ok b := by
  cases x with
  | ok a =>
    refine ⟨fun h => ⟨a, rfl, h⟩, ?_⟩
    rintro ⟨a', ha, h⟩
    obtain rfl := Except.ok.inj ha
    exact h
  | error e =>
    refine ⟨fun h => (by cases h), ?_⟩
    rintro ⟨a, ha, -⟩
    cases ha

namespace Prog

/-- Go on with what the first program returns. -/
def bind : Prog I ε α → (α → Prog I ε β) → Prog I ε β
  | ret a, f => f a
  | fail e, _ => fail e
  | ask o k, f => ask o fun a => bind (k a) f

instance : Monad (Prog I ε) where
  pure := ret
  bind := bind

def perform (o : I.Op) : Prog I ε (I.Ans o) :=
  ask o ret

/-- The result of a pure computation. -/
def ofExcept : Except ε α → Prog I ε α
  | .ok a => ret a
  | .error e => fail e

def attempt : Prog I ε α → Prog I ε (Except ε α)
  | ret a => ret (.ok a)
  | fail e => ret (.error e)
  | ask o k => ask o fun a => attempt (k a)

/-- Answer each operation of a program by a program over another interface. -/
def interpret {J : Interface} (f : ∀ o, Prog J ε (I.Ans o)) : Prog I ε α → Prog J ε α
  | ret a => ret a
  | fail e => fail e
  | ask o k => bind (f o) fun a => interpret f (k a)

abbrev Said (I : Interface) : Type :=
  Σ o : I.Op, I.Ans o

/-! ## Trails -/

/-- After what `h` says, the program asks only operations that `P` allows there, returns
only what `Q` allows and fails only as `E` allows. -/
def Trail (P : List (Said I) → I.Op → Prop) (Q : List (Said I) → α → Prop)
    (E : List (Said I) → ε → Prop) : Prog I ε α → List (Said I) → Prop
  | ret a, h => Q h a
  | fail e, h => E h e
  | ask o k, h => P h o ∧ ∀ a, Trail P Q E (k a) (h ++ [⟨o, a⟩])

variable {P : List (Said I) → I.Op → Prop} {E : List (Said I) → ε → Prop}
  {Q : List (Said I) → α → Prop}

@[simp] theorem trail_ret (a : α) (h : List (Said I)) : Trail P Q E (ret a) h ↔ Q h a :=
  Iff.rfl

@[simp] theorem trail_pure (a : α) (h : List (Said I)) : Trail P Q E (pure a) h ↔ Q h a :=
  Iff.rfl

@[simp] theorem trail_fail (e : ε) (h : List (Said I)) : Trail P Q E (fail e) h ↔ E h e :=
  Iff.rfl

@[simp] theorem trail_bind {Q : List (Said I) → β → Prop} (p : Prog I ε α)
    (f : α → Prog I ε β) (h : List (Said I)) :
    Trail P Q E (p >>= f) h ↔ Trail P (fun h a => Trail P Q E (f a) h) E p h := by
  induction p generalizing h with
  | ret a => rfl
  | fail e => rfl
  | ask o k ih => exact and_congr Iff.rfl (forall_congr' fun a => ih a _)

@[simp] theorem trail_ofExcept (r : Except ε α) (h : List (Said I)) :
    Trail P Q E (ofExcept r) h ↔ (∀ a, r = .ok a → Q h a) ∧ ∀ e, r = .error e → E h e := by
  cases r <;> simp [ofExcept]

@[simp] theorem trail_attempt {Q : List (Said I) → Except ε α → Prop} (p : Prog I ε α)
    (h : List (Said I)) : Trail P Q E (attempt p) h ↔
      Trail P (fun h a => Q h (.ok a)) (fun h e => Q h (.error e)) p h := by
  induction p generalizing h with
  | ret a => rfl
  | fail e => rfl
  | ask o k ih => exact and_congr Iff.rfl (forall_congr' fun a => ih a _)

variable {p : Prog I ε α} {h : List (Said I)}

theorem Trail.extends (hp : Trail P Q E p h) : Trail P (fun h' a => h <+: h' ∧ Q h' a) E p h := by
  suffices ∀ h', h <+: h' → Trail P Q E p h' → Trail P (fun h' a => h <+: h' ∧ Q h' a) E p h'
    from this h (List.prefix_refl h) hp
  clear hp
  induction p with
  | ret a => exact fun h' hpre hp => ⟨hpre, hp⟩
  | fail e => exact fun h' _ hp => hp
  | ask o k ih =>
    intro h' hpre hp
    exact ⟨hp.1, fun a => ih a _ (hpre.trans (List.prefix_append _ _)) (hp.2 a)⟩

theorem Trail.mono {P' : List (Said I) → I.Op → Prop} {Q' : List (Said I) → α → Prop}
    {E' : List (Said I) → ε → Prop} (hP : ∀ h o, P h o → P' h o) (hQ : ∀ h a, Q h a → Q' h a)
    (hE : ∀ h e, E h e → E' h e) (hp : Trail P Q E p h) : Trail P' Q' E' p h := by
  induction p generalizing h with
  | ret a => exact hQ h a hp
  | fail e => exact hE h e hp
  | ask o k ih => exact ⟨hP h o hp.1, fun a => ih a (hp.2 a)⟩

theorem Trail.bind {R : List (Said I) → α → Prop} {Q : List (Said I) → β → Prop}
    {f : α → Prog I ε β} (hp : Trail P R (fun _ _ => True) p h)
    (hf : ∀ h' a, h <+: h' → R h' a → Trail P Q (fun _ _ => True) (f a) h') :
    Trail P Q (fun _ _ => True) (p >>= f) h := by
  rw [trail_bind]
  exact hp.extends.mono (fun _ _ h => h) (fun h' a ha => hf h' a ha.1 ha.2) fun _ _ h => h

/-- A program that asks only operations of a kind. -/
def Asks (P : I.Op → Prop) (p : Prog I ε α) : Prop :=
  ∀ h, Trail (fun _ o => P o) (fun _ _ => True) (fun _ _ => True) p h

section asks

variable {A : I.Op → Prop}

theorem asks_pure (a : α) : Asks A (pure a : Prog I ε α) :=
  fun _ => trivial

theorem asks_fail (e : ε) : Asks A (fail e : Prog I ε α) :=
  fun _ => trivial

theorem asks_perform {o : I.Op} (ho : A o) : Asks A (perform o : Prog I ε (I.Ans o)) :=
  fun _ => ⟨ho, fun _ => trivial⟩

theorem asks_ofExcept (r : Except ε α) : Asks A (ofExcept r : Prog I ε α) := by
  cases r with
  | ok a => exact asks_pure a
  | error e => exact asks_fail e

theorem Asks.bind {p : Prog I ε α} {f : α → Prog I ε β} (hp : Asks A p)
    (hf : ∀ a, Asks A (f a)) : Asks A (p >>= f) := by
  intro h
  rw [trail_bind]
  exact (hp h).mono (fun _ _ h => h) (fun h' a _ => hf a h') fun _ _ h => h

theorem Asks.attempt {p : Prog I ε α} (hp : Asks A p) : Asks A (attempt p) := by
  intro h
  rw [trail_attempt]
  exact hp h

end asks

/-! ## One program alone -/

section alone

variable {σ X : Type} (act : (o : I.Op) → X → σ → I.Ans o × σ)

/-- The program, alone, can go from the first state to the second and return the value, under
some choices of the environment. -/
def Ends : Prog I ε α → σ → α → σ → Prop
  | ret a, s, b, s' => a = b ∧ s = s'
  | fail _, _, _, _ => False
  | ask o k, s, b, s' => ∃ x, Ends (k (act o x s).1) (act o x s).2 b s'

variable {act} {s s' : σ}

theorem ends_bind {p : Prog I ε α} {f : α → Prog I ε β} {b : β} :
    Ends act (p >>= f) s b s' ↔ ∃ a t, Ends act p s a t ∧ Ends act (f a) t b s' := by
  induction p generalizing s with
  | ret a =>
    constructor
    · exact fun h => ⟨a, s, ⟨rfl, rfl⟩, h⟩
    · rintro ⟨a', t, ⟨rfl, rfl⟩, h⟩
      exact h
  | fail e =>
    constructor
    · exact fun h => h.elim
    · rintro ⟨a, t, h, -⟩
      exact h.elim
  | ask o k ih =>
    constructor
    · rintro ⟨x, h⟩
      obtain ⟨a, t, hp, hf⟩ := (ih _).1 h
      exact ⟨a, t, ⟨x, hp⟩, hf⟩
    · rintro ⟨a, t, ⟨x, hp⟩, hf⟩
      exact ⟨x, (ih _).2 ⟨a, t, hp, hf⟩⟩

variable {a b : α}

theorem ends_pure : Ends act (pure a : Prog I ε α) s b s' ↔ a = b ∧ s = s' :=
  Iff.rfl

theorem ends_ofExcept {r : Except ε α} : Ends act (ofExcept r) s b s' ↔ r = .ok b ∧ s = s' := by
  cases r with
  | ok a => exact and_congr_left fun _ => Except.ok.injEq a b ▸ Iff.rfl
  | error e => exact ⟨fun h => h.elim, fun h => by cases h.1⟩

/-- What the program, alone, returns when the environment makes the same choice each time. -/
def run (act : (o : I.Op) → X → σ → I.Ans o × σ) (x : X) : Prog I ε α → σ → Option (α × σ)
  | ret a, s => some (a, s)
  | fail _, _ => none
  | ask o k, s => run act x (k (act o x s).1) (act o x s).2

theorem ends_of_run {x : X} {p : Prog I ε α} (h : p.run act x s = some (a, s')) :
    Ends act p s a s' := by
  induction p generalizing s with
  | ret b => exact Prod.mk.inj (Option.some.inj h)
  | fail e => cases h
  | ask o k ih => exact ⟨x, ih _ h⟩

end alone

end Prog

/-! ## The pool -/

/-- A system of calls: the program of each request, and what an operation answers and
does to the store under a choice of the environment. -/
structure System where
  I : Interface
  (Err Res Store Request Choice : Type)
  program : Request → Prog I Err Res
  perform : (o : I.Op) → Choice → Store → I.Ans o × Store

variable {S : System}

/-- A call: its request, what it was told, and what it will do. A crashed call does
nothing any more. -/
structure Call (S : System) where
  request : S.Request
  said : List (Prog.Said S.I)
  prog : Option (Prog S.I S.Err S.Res)

structure State (S : System) where
  store : S.Store
  calls : List (Call S)

inductive Move (S : System) where
  | spawn (r : S.Request)
  /-- The call performs its next operation. -/
  | act (i : ℕ) (c : S.Choice)
  | crash (i : ℕ)

/-- The next operation of a call under a choice. -/
def Call.act (c : Call S) (x : S.Choice) (st : S.Store) : Option (Call S × S.Store) :=
  match c.prog with
  | some (.ask o k) =>
    some (⟨c.request, c.said ++ [⟨o, (S.perform o x st).1⟩], some (k (S.perform o x st).1)⟩,
      (S.perform o x st).2)
  | _ => none

def State.step (s : State S) : Move S → Option (State S)
  | .spawn r => some { s with calls := s.calls ++ [⟨r, [], some (S.program r)⟩] }
  | .act i x =>
    match s.calls[i]? with
    | some c => (c.act x s.store).map fun p => ⟨p.2, s.calls.set i p.1⟩
    | none => none
  | .crash i =>
    match s.calls[i]? with
    | some c => some { s with calls := s.calls.set i { c with prog := none } }
    | none => none

/-- A move with the states before and after it. -/
structure Moment (S : System) where
  before : State S
  move : Move S
  after : State S

inductive Run (s₀ : State S) : List (Moment S) → State S → Prop
  | start : Run s₀ [] s₀
  | step {ms : List (Moment S)} {s s' : State S} {m : Move S} (hr : Run s₀ ms s)
      (h : s.step m = some s') : Run s₀ (ms ++ [⟨s, m, s'⟩]) s'

def State.exec (s : State S) : List (Move S) → Option (State S)
  | [] => some s
  | m :: ms => (s.step m).bind fun s' => s'.exec ms

/-- The states after the moves of a schedule, as long as each passes the test. -/
def State.execWhile (p : State S → Move S → Bool) (s : State S) : List (Move S) → Option (State S)
  | [] => some s
  | m :: ms => if p s m then (s.step m).bind fun s' => s'.execWhile p ms else none

def Call.next (c : Call S) : Option S.I.Op :=
  match c.prog with
  | some (.ask o _) => some o
  | _ => none

def State.next (s : State S) (i : ℕ) : Option S.I.Op :=
  s.calls[i]?.bind Call.next

/-! ## One move -/

variable {x : S.Choice} {c c' : Call S}

theorem act_eq_some {st st' : S.Store} (h : c.act x st = some (c', st')) :
    ∃ o k, c.prog = some (.ask o k) ∧
      st' = (S.perform o x st).2 ∧
      c' = ⟨c.request, c.said ++ [⟨o, (S.perform o x st).1⟩],
        some (k (S.perform o x st).1)⟩ := by
  unfold Call.act at h
  split at h
  · next o k ho =>
    obtain ⟨h1, h2⟩ := Prod.mk.inj (Option.some.inj h)
    exact ⟨o, k, ho, h2.symm, h1.symm⟩
  · simp at h

variable {m : Move S}

theorem step_cases {s s' : State S} (h : s.step m = some s') :
    (∃ r, m = .spawn r ∧ s' = ⟨s.store, s.calls ++ [⟨r, [], some (S.program r)⟩]⟩) ∨
    (∃ i x c o k, m = .act i x ∧ s.calls[i]? = some c ∧ c.prog = some (.ask o k) ∧
      s' = ⟨(S.perform o x s.store).2, s.calls.set i ⟨c.request,
        c.said ++ [⟨o, (S.perform o x s.store).1⟩], some (k (S.perform o x s.store).1)⟩⟩) ∨
    (∃ i c, m = .crash i ∧ s.calls[i]? = some c ∧
      s' = ⟨s.store, s.calls.set i ⟨c.request, c.said, none⟩⟩) := by
  cases m with
  | spawn r => exact Or.inl ⟨r, rfl, (Option.some.inj h).symm⟩
  | act i x =>
    simp only [State.step] at h
    split at h
    · next c hc =>
      obtain ⟨⟨c', st'⟩, hact, rfl⟩ := Option.map_eq_some_iff.1 h
      obtain ⟨o, k, ho, rfl, rfl⟩ := act_eq_some hact
      exact Or.inr (Or.inl ⟨i, x, c, o, k, rfl, hc, ho, rfl⟩)
    · simp at h
  | crash i =>
    simp only [State.step] at h
    split at h
    · next c hc => exact Or.inr (Or.inr ⟨i, c, rfl, hc, (Option.some.inj h).symm⟩)
    · simp at h

theorem step_store {s s' : State S} (h : s.step m = some s') :
    s'.store = s.store ∨ ∃ o x, s'.store = (S.perform o x s.store).2 := by
  rcases step_cases h with ⟨r, -, rfl⟩ | ⟨i, x, c, o, k, -, -, -, rfl⟩ | ⟨i, c, -, -, rfl⟩
  · exact Or.inl rfl
  · exact Or.inr ⟨o, x, rfl⟩
  · exact Or.inl rfl

variable {i : ℕ}

theorem mem_set_cases {γ : Type*} {l : List γ} {a b : γ} (h : b ∈ l.set i a) : b = a ∨ b ∈ l := by
  rcases List.mem_or_eq_of_mem_set h with h | h
  · exact Or.inr h
  · exact Or.inl h

/-! ## Runs -/

namespace Run

variable {s₀ s : State S} {ms : List (Moment S)} {moves : List (Move S)}

theorem of_exec (h : s₀.exec moves = some s) : ∃ ms, Run s₀ ms s ∧ ms.map Moment.move = moves := by
  suffices ∀ ms t, Run s₀ ms t → t.exec moves = some s →
      ∃ ms', Run s₀ (ms ++ ms') s ∧ ms'.map Moment.move = moves by
    obtain ⟨ms', hr, hm⟩ := this [] s₀ .start h
    exact ⟨ms', by simpa using hr, hm⟩
  clear h
  induction moves with
  | nil =>
    rintro ms t hr h
    obtain rfl := Option.some.inj h
    exact ⟨[], by simpa using hr, rfl⟩
  | cons m moves ih =>
    rintro ms t hr h
    obtain ⟨t', ht, h⟩ := Option.bind_eq_some_iff.1 h
    obtain ⟨ms', hr', hm⟩ := ih _ t' (hr.step ht) h
    exact ⟨⟨t, m, t'⟩ :: ms', by simpa using hr', by simp [hm]⟩

/-- A schedule whose moves pass a test is a run whose moments do. -/
theorem of_execWhile {p : State S → Move S → Bool} (h : s₀.execWhile p moves = some s) :
    ∃ ms, Run s₀ ms s ∧ ∀ m ∈ ms, p m.before m.move = true := by
  suffices ∀ ms t, Run s₀ ms t → t.execWhile p moves = some s →
      (∀ m ∈ ms, p m.before m.move = true) →
      ∃ ms', Run s₀ ms' s ∧ ∀ m ∈ ms', p m.before m.move = true from
    this [] s₀ .start h (by simp)
  clear h
  induction moves with
  | nil =>
    rintro ms t hr h hp
    obtain rfl := Option.some.inj h
    exact ⟨ms, hr, hp⟩
  | cons m moves ih =>
    rintro ms t hr h hp
    rw [State.execWhile] at h
    split_ifs at h with hpm
    obtain ⟨t', ht, h⟩ := Option.bind_eq_some_iff.1 h
    refine ih _ t' (hr.step ht) h fun m' hm' => ?_
    rcases List.mem_append.1 hm' with hm' | hm'
    · exact hp m' hm'
    · obtain rfl := List.mem_singleton.1 hm'
      exact hpm

/-- A schedule and one more move that can be executed, with what is found before and after
the last move. -/
theorem of_exec_step {m : Move S} {P : State S → State S → Prop}
    (h : ∃ s ∈ s₀.exec moves, ∃ s' ∈ s.step m, P s s') :
    ∃ ms s s', Run s₀ (ms ++ [⟨s, m, s'⟩]) s' ∧ P s s' := by
  obtain ⟨s, hs, s', hs', hP⟩ := h
  obtain ⟨ms, hr, -⟩ := of_exec hs
  exact ⟨ms, s, s', hr.step hs', hP⟩

variable {J : State S → Prop} {K : S.Store → Prop}

theorem invariant (h₀ : J s₀) (hstep : ∀ s m s', J s → s.step m = some s' → J s')
    (hr : Run s₀ ms s) : J s := by
  induction hr with
  | start => exact h₀
  | step hr h ih => exact hstep _ _ _ ih h

theorem store (h₀ : K s₀.store) (hop : ∀ o x st, K st → K (S.perform o x st).2)
    (hr : Run s₀ ms s) : K s.store := by
  refine hr.invariant (J := fun s => K s.store) h₀ fun s m s' hs h => ?_
  rcases step_store h with h | ⟨o, x, h⟩ <;> rw [h]
  · exact hs
  · exact hop o x _ hs

/-! ### Parts of a run -/

theorem trans {t : State S} {ms' : List (Moment S)} (hr : Run s₀ ms s) (h : Run s ms' t) :
    Run s₀ (ms ++ ms') t := by
  induction h with
  | start => simpa using hr
  | step _ h ih => simpa using ih.step h

variable {l l' : List (Moment S)}

theorem split (hr : Run s₀ (l ++ l') s) : ∃ t, Run s₀ l t ∧ Run t l' s := by
  induction l' using List.reverseRecOn generalizing s with
  | nil => exact ⟨s, by simpa using hr, .start⟩
  | append_singleton l' m ih =>
    rw [← List.append_assoc] at hr
    generalize hl : l ++ l' ++ [m] = l'' at hr
    cases hr with
    | start => simp at hl
    | step hr h =>
      obtain ⟨rfl, hm⟩ := List.append_inj' hl rfl
      obtain rfl := List.singleton_inj.1 hm
      obtain ⟨t, ht, ht'⟩ := ih hr
      exact ⟨t, ht, ht'.step h⟩

theorem around {m : Moment S} (hr : Run s₀ (l ++ m :: l') s) :
    Run s₀ l m.before ∧ m.before.step m.move = some m.after ∧ Run m.after l' s := by
  rw [← List.singleton_append, ← List.append_assoc] at hr
  obtain ⟨t, ht, ht'⟩ := hr.split
  generalize hl : l ++ [m] = l'' at ht
  cases ht with
  | start => simp at hl
  | step hr₁ h =>
    obtain ⟨rfl, hm⟩ := List.append_inj' hl rfl
    obtain rfl := List.singleton_inj.1 hm
    exact ⟨hr₁, h, ht'⟩

theorem keeps (hr : Run s₀ ms s) (h₀ : J s₀) (hk : ∀ m ∈ ms, J m.before → J m.after) : J s := by
  induction hr with
  | start => exact h₀
  | step hr h ih =>
    exact hk _ (List.mem_append_right _ (List.mem_singleton.2 rfl))
      (ih fun m hm => hk m (List.mem_append_left _ hm))

/-! ### Trails of calls -/

/-- Each operation asked so far was allowed after what was said before it. -/
def Kept (P : List (Prog.Said S.I) → S.I.Op → Prop) (l : List (Prog.Said S.I)) : Prop :=
  ∀ l₁ a l₂, l = l₁ ++ a :: l₂ → P l₁ a.1

theorem kept_nil (P : List (Prog.Said S.I) → S.I.Op → Prop) : Kept P [] := by
  rintro l₁ a l₂ h
  simp at h

theorem kept_append {P : List (Prog.Said S.I) → S.I.Op → Prop} {l : List (Prog.Said S.I)}
    {a : Prog.Said S.I} (hl : Kept P l) (ha : P l a.1) : Kept P (l ++ [a]) := by
  rintro l₁ b l₂ h
  rcases List.eq_nil_or_concat l₂ with rfl | ⟨l₂, y, rfl⟩
  · obtain ⟨rfl, hb⟩ := List.append_inj' h rfl
    obtain rfl := List.singleton_inj.1 hb
    exact ha
  · rw [List.concat_eq_append, ← List.cons_append, ← List.append_assoc] at h
    exact hl _ _ _ (List.append_inj' h rfl).1

variable {P : S.Request → List (Prog.Said S.I) → S.I.Op → Prop}
  {Q : S.Request → List (Prog.Said S.I) → S.Res → Prop}
  {E : S.Request → List (Prog.Said S.I) → S.Err → Prop}

def Follows (P : S.Request → List (Prog.Said S.I) → S.I.Op → Prop)
    (Q : S.Request → List (Prog.Said S.I) → S.Res → Prop)
    (E : S.Request → List (Prog.Said S.I) → S.Err → Prop) (c : Call S) : Prop :=
  Kept (P c.request) c.said ∧
    ∀ p, c.prog = some p → p.Trail (P c.request) (Q c.request) (E c.request) c.said

theorem trail (h₀ : s₀.calls = [])
    (hp : ∀ r, (S.program r).Trail (P r) (Q r) (E r) []) (hr : Run s₀ ms s) :
    ∀ c ∈ s.calls, Follows P Q E c := by
  refine hr.invariant (J := fun s => ∀ c ∈ s.calls, Follows P Q E c) (by simp [h₀])
    fun s m s' hs h => ?_
  rcases step_cases h with ⟨r, -, rfl⟩ | ⟨i, x, c, o, k, -, hc, ho, rfl⟩ | ⟨i, c, -, hc, rfl⟩
  · rintro d hd
    rcases List.mem_append.1 hd with hd | hd
    · exact hs d hd
    · obtain rfl := List.mem_singleton.1 hd
      exact ⟨kept_nil _, by rintro p hp'; obtain rfl := Option.some.inj hp'; exact hp r⟩
  · rintro d hd
    rcases mem_set_cases hd with rfl | hd
    · obtain ⟨hk, ht⟩ := hs c (List.mem_of_getElem? hc)
      obtain ⟨hP, hnext⟩ := ht _ ho
      refine ⟨kept_append hk hP, ?_⟩
      rintro p hp'
      obtain rfl := Option.some.inj hp'
      exact hnext _
    · exact hs d hd
  · rintro d hd
    rcases mem_set_cases hd with rfl | hd
    · exact ⟨(hs c (List.mem_of_getElem? hc)).1, by simp⟩
    · exact hs d hd

theorem asked (h₀ : s₀.calls = []) (hp : ∀ r, (S.program r).Trail (P r) (Q r) (E r) [])
    (hr : Run s₀ ms s) {i : ℕ} {c : Call S} {o : S.I.Op} {k : S.I.Ans o → Prog S.I S.Err S.Res}
    (hc : s.calls[i]? = some c) (ho : c.prog = some (.ask o k)) : P c.request c.said o :=
  ((hr.trail h₀ hp c (List.mem_of_getElem? hc)).2 _ ho).1

/-! ### What the calls were told -/

variable {T : Prog.Said S.I → S.Store → Prop}

/-- Every operation of the moments is performed under the condition. -/
def Under (G : S.I.Op → S.Store → Prop) (ms : List (Moment S)) : Prop :=
  ∀ m ∈ ms, ∀ i x o, m.move = .act i x → m.before.next i = some o → G o m.before.store

/-- What each operation keeps, given the condition, that it is allowed after what was said
before it and that all that was said is true of the store, holds throughout, and all that was
said stays true. -/
theorem soundUnder {G : S.I.Op → S.Store → Prop} (h₀ : s₀.calls = []) (hK : K s₀.store)
    (hp : ∀ r, (S.program r).Trail (P r) (Q r) (E r) [])
    (hstep : ∀ r h o x st, K st → (∀ a ∈ h, T a st) → P r h o → G o st →
      K (S.perform o x st).2 ∧ T ⟨o, (S.perform o x st).1⟩ (S.perform o x st).2 ∧
        ∀ a, T a st → T a (S.perform o x st).2) (hr : Run s₀ ms s) (hG : Under G ms) :
    K s.store ∧ ∀ c ∈ s.calls, ∀ a ∈ c.said, T a s.store := by
  induction hr with
  | start => exact ⟨hK, by simp [h₀]⟩
  | @step ms s s' m hr h ih =>
    obtain ⟨hs, hT⟩ := ih fun m hm => hG m (List.mem_append_left _ hm)
    have hlast := hG ⟨s, m, s'⟩ (List.mem_append_right _ (List.mem_singleton.2 rfl))
    rcases step_cases h with ⟨r, -, rfl⟩ | ⟨i, x, c, o, k, hm, hc, ho, rfl⟩ | ⟨i, c, -, hc, rfl⟩
    · refine ⟨hs, fun c hc a ha => ?_⟩
      rcases List.mem_append.1 hc with hc | hc
      · exact hT c hc a ha
      · obtain rfl := List.mem_singleton.1 hc
        simp at ha
    · have hmem := List.mem_of_getElem? hc
      have hasked := hr.asked h₀ hp hc ho
      obtain ⟨hs', hnew, hold⟩ := hstep c.request c.said o x s.store hs (hT c hmem) hasked
        (hlast i x o hm (by rw [State.next, hc, Option.bind_some, Call.next, ho]))
      refine ⟨hs', fun d hd a ha => ?_⟩
      rcases mem_set_cases hd with rfl | hd
      · rcases List.mem_append.1 ha with ha | ha
        · exact hold a (hT c hmem a ha)
        · obtain rfl := List.mem_singleton.1 ha
          exact hnew
      · exact hold a (hT d hd a ha)
    · refine ⟨hs, fun d hd a ha => ?_⟩
      rcases mem_set_cases hd with rfl | hd
      · exact hT c (List.mem_of_getElem? hc) a ha
      · exact hT d hd a ha

/-- What each operation keeps, given that it is allowed after what was said before it and
that all that was said is true of the store, holds throughout, and all that was said stays
true. -/
theorem sound (h₀ : s₀.calls = []) (hK : K s₀.store)
    (hp : ∀ r, (S.program r).Trail (P r) (Q r) (E r) [])
    (hstep : ∀ r h o x st, K st → (∀ a ∈ h, T a st) → P r h o →
      K (S.perform o x st).2 ∧ T ⟨o, (S.perform o x st).1⟩ (S.perform o x st).2 ∧
        ∀ a, T a st → T a (S.perform o x st).2) (hr : Run s₀ ms s) :
    K s.store ∧ ∀ c ∈ s.calls, ∀ a ∈ c.said, T a s.store :=
  hr.soundUnder (G := fun _ _ => True) h₀ hK hp
    (fun r h o x st hs hT ho _ => hstep r h o x st hs hT ho) fun _ _ _ _ _ _ _ => trivial

/-! ### Moments -/

theorem of_mem (hr : Run s₀ ms s) {m : Moment S} (hm : m ∈ ms) :
    ∃ ms₁ ms₂, ms = ms₁ ++ m :: ms₂ ∧ Run s₀ ms₁ m.before ∧
      m.before.step m.move = some m.after := by
  induction hr with
  | start => simp at hm
  | @step ms s s' mv hr h ih =>
    rcases List.mem_append.1 hm with hm | hm
    · obtain ⟨ms₁, ms₂, rfl, h₁, h₂⟩ := ih hm
      exact ⟨ms₁, ms₂ ++ [⟨s, mv, s'⟩], by simp, h₁, h₂⟩
    · obtain rfl := List.mem_singleton.1 hm
      exact ⟨ms, [], rfl, hr, h⟩

end Run

def Moment.Performs (m : Moment S) (c : Call S) (o : S.I.Op) (a : S.I.Ans o) : Prop :=
  ∃ i x k, m.move = .act i x ∧ m.before.calls[i]? = some c ∧ c.prog = some (.ask o k) ∧
    S.perform o x m.before.store = (a, m.after.store)

theorem Moment.Performs.next {m : Moment S} {o : S.I.Op} {a : S.I.Ans o} (h : m.Performs c o a)
    (hm : m.move = .act i x) : m.before.next i = some o := by
  obtain ⟨j, y, k, hj, hc, ho, -⟩ := h
  cases hm.symm.trans hj
  rw [State.next, hc, Option.bind_some, Call.next, ho]

theorem Moment.Performs.of_next {s s' : State S} {o : S.I.Op} (h : s.step (.act i x) = some s')
    (hn : s.next i = some o) :
    ∃ c, Moment.Performs ⟨s, .act i x, s'⟩ c o (S.perform o x s.store).1 := by
  rcases step_cases h with ⟨r, hm, -⟩ | ⟨j, y, c, o', k, hm, hc, ho, rfl⟩ | ⟨j, c, hm, -, -⟩
  · cases hm
  · cases hm
    rw [State.next, hc, Option.bind_some, Call.next, ho] at hn
    obtain rfl := Option.some.inj hn
    exact ⟨c, i, x, k, rfl, hc, ho, rfl⟩
  · cases hm

theorem Moment.Performs.unique {m : Moment S} {o o' : S.I.Op} {a : S.I.Ans o} {a' : S.I.Ans o'}
    (h : m.Performs c o a) (h' : m.Performs c' o' a') : o = o' := by
  obtain ⟨i, x, k, hm, -, -, -⟩ := id h
  exact Option.some.inj ((h.next hm).symm.trans (h'.next hm))

theorem moment_cases {s s' : State S} (h : s.step m = some s') :
    s'.store = s.store ∨ ∃ c o a, Moment.Performs ⟨s, m, s'⟩ c o a := by
  rcases step_cases h with ⟨r, -, rfl⟩ | ⟨i, x, c, o, k, rfl, hc, ho, rfl⟩ | ⟨i, c, -, -, rfl⟩
  · exact Or.inl rfl
  · exact Or.inr ⟨c, o, _, i, x, k, rfl, hc, ho, rfl⟩
  · exact Or.inl rfl

namespace Run

variable {s₀ s : State S} {ms : List (Moment S)} {K : S.Store → Prop}
  {P : S.Request → List (Prog.Said S.I) → S.I.Op → Prop}
  {Q : S.Request → List (Prog.Said S.I) → S.Res → Prop}
  {E : S.Request → List (Prog.Said S.I) → S.Err → Prop}

/-! ### Counting -/

def count (p : Prog.Said S.I → Bool) (s : State S) : ℕ :=
  (s.calls.map fun c => c.said.countP p).sum

theorem sum_set {γ : Type*} {l : List γ} {i : ℕ} {a b : γ} (f : γ → ℕ) (h : l[i]? = some a) :
    ((l.set i b).map f).sum + f a = (l.map f).sum + f b := by
  induction l generalizing i with
  | nil => simp at h
  | cons x l ih =>
    cases i with
    | zero =>
      obtain rfl : x = a := by simpa using h
      simp only [List.set_cons_zero, List.map_cons, List.sum_cons]
      omega
    | succ i =>
      have ih := ih (i := i) (by simpa using h)
      simp only [List.set_cons_succ, List.map_cons, List.sum_cons]
      omega

theorem count_step {p : Prog.Said S.I → Bool} {s s' : State S} {m : Move S}
    (h : s.step m = some s') :
    (count p s' = count p s ∧ s'.store = s.store) ∨
    ∃ i x c o k, m = .act i x ∧ s.calls[i]? = some c ∧ c.prog = some (.ask o k) ∧
      s'.store = (S.perform o x s.store).2 ∧
      count p s' = count p s + if p ⟨o, (S.perform o x s.store).1⟩ then 1 else 0 := by
  rcases step_cases h with ⟨r, -, rfl⟩ | ⟨i, x, c, o, k, hm, hc, ho, rfl⟩ | ⟨i, c, -, hc, rfl⟩
  · exact Or.inl ⟨by simp [count], rfl⟩
  · refine Or.inr ⟨i, x, c, o, k, hm, hc, ho, rfl, ?_⟩
    have hsum := sum_set (b := ⟨c.request, c.said ++ [⟨o, (S.perform o x s.store).1⟩],
      some (k (S.perform o x s.store).1)⟩) (fun c : Call S => c.said.countP p) hc
    simp only [List.countP_append, List.countP_singleton] at hsum
    simp only [count]
    omega
  · refine Or.inl ⟨?_, rfl⟩
    have hsum := sum_set (b := ⟨c.request, c.said, none⟩)
      (fun c : Call S => c.said.countP p) hc
    simp only [count] at hsum ⊢
    omega

variable {spends earns : Prog.Said S.I → Bool}

/-- Each thing spent comes right after one that earned it, so no more is spent than was
earned. -/
theorem countP_le_of_kept (hne : ∀ a, spends a = true → earns a = false) {l : List (Prog.Said S.I)}
    (hl : ∀ l₁ a l₂, l = l₁ ++ a :: l₂ → spends a = true → l₁.getLast?.any earns = true) :
    l.countP spends + (if l.getLast?.any earns = true then 1 else 0) ≤ l.countP earns := by
  induction l using List.reverseRecOn with
  | nil => simp
  | append_singleton l a ih =>
    have ih := ih fun l₁ b l₂ h => hl l₁ b (l₂ ++ [a]) (by simp [h])
    simp only [List.getLast?_append, List.getLast?_singleton, Option.some_or, Option.any_some,
      List.countP_append, List.countP_singleton]
    by_cases ha : spends a = true
    · rw [if_pos (hl l a [] rfl ha)] at ih
      simp only [ha, hne a ha]
      simpa using ih
    · by_cases he : earns a = true <;> simp only [ha, he] <;> simp <;> omega

/-- Each operation that spends is asked right after one that earned it, so in the whole run
no more is spent than was earned. -/
theorem count_le (h₀ : s₀.calls = []) (hne : ∀ a, spends a = true → earns a = false)
    (hp : ∀ r, (S.program r).Trail (P r) (Q r) (E r) [])
    (hP : ∀ r h o, P r h o → ∀ a, spends ⟨o, a⟩ = true → h.getLast?.any earns = true)
    (hr : Run s₀ ms s) : count spends s ≤ count earns s := by
  refine List.sum_le_sum fun c hc => ?_
  have hkept := (hr.trail h₀ hp c hc).1
  have h := countP_le_of_kept hne fun l₁ a l₂ h ha => hP _ _ _ (hkept l₁ a l₂ h) a.2 ha
  omega

end Run

end Calls
