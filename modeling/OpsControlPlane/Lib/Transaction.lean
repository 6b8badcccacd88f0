import Mathlib.Data.List.Basic
import Mathlib.Tactic

/-!
# Transactions over tables

`Txn` is a transaction: it reads an environment, reads and writes a state, and returns
or fails. `Txn.commit` is its atomic effect, the state of before when it fails. `Txn.wp`
is the rule for its outcome, with one equation for each construct, and `Txn.commit_cases`
carries an outcome to the commit.

A table is a list of rows in the order of their insertion. `row` looks a row up by a
key, `update` rewrites the rows that satisfy a condition; the lemmas say what a lookup
finds after an insertion and after an update that keeps the keys.
-/

namespace Transaction

/-- A transaction over the environment `ρ` and the state `σ`. -/
def Txn (ρ σ ε α : Type) : Type :=
  ρ → σ → Except ε (α × σ)

namespace Txn

variable {ρ σ ε α β : Type}

instance : Monad (Txn ρ σ ε) where
  pure a := fun _ s => .ok (a, s)
  bind m f := fun x s =>
    match m x s with
    | .ok (a, s') => f a x s'
    | .error e => .error e

/-- Fail: the exception leaves the transaction. -/
def raise (e : ε) : Txn ρ σ ε α :=
  fun _ _ => .error e

def env : Txn ρ σ ε ρ :=
  fun x s => .ok (x, s)

def query (f : σ → α) : Txn ρ σ ε α :=
  fun _ s => .ok (f s, s)

def modify (f : σ → σ) : Txn ρ σ ε Unit :=
  fun _ s => .ok ((), f s)

/-- The result of a pure computation. -/
def ofExcept : Except ε α → Txn ρ σ ε α
  | .ok a => pure a
  | .error e => raise e

/-- The value, or the exception if there is none. -/
def expect (a : Option α) (e : ε) : Txn ρ σ ε α :=
  match a with
  | some a => pure a
  | none => raise e

/-- The exception unless the condition holds. -/
def demand (c : Prop) [Decidable c] (e : ε) : Txn ρ σ ε Unit :=
  if c then pure () else raise e

/-- Every successful outcome satisfies `Q`, every failure satisfies `E`. -/
def wp (m : Txn ρ σ ε α) (x : ρ) (s : σ) (Q : α → σ → Prop) (E : ε → Prop) : Prop :=
  match m x s with
  | .ok (a, s') => Q a s'
  | .error e => E e

variable {Q : α → σ → Prop} {E : ε → Prop} {x : ρ} {s : σ}

@[simp] theorem wp_pure (a : α) : wp (pure a : Txn ρ σ ε α) x s Q E ↔ Q a s :=
  Iff.rfl

@[simp] theorem wp_bind {Q : β → σ → Prop} (m : Txn ρ σ ε α) (f : α → Txn ρ σ ε β) :
    wp (m >>= f) x s Q E ↔ wp m x s (fun a s' => wp (f a) x s' Q E) E := by
  show (match (match m x s with | .ok (a, s') => f a x s' | .error e => .error e) with
    | .ok (a, s') => Q a s' | .error e => E e) ↔ _
  unfold wp
  cases m x s <;> rfl

@[simp] theorem wp_raise (e : ε) : wp (raise e : Txn ρ σ ε α) x s Q E ↔ E e :=
  Iff.rfl

@[simp] theorem wp_env {Q : ρ → σ → Prop} : wp (env : Txn ρ σ ε ρ) x s Q E ↔ Q x s :=
  Iff.rfl

@[simp] theorem wp_query (f : σ → α) : wp (query f : Txn ρ σ ε α) x s Q E ↔ Q (f s) s :=
  Iff.rfl

@[simp] theorem wp_modify {Q : Unit → σ → Prop} (f : σ → σ) :
    wp (modify f : Txn ρ σ ε Unit) x s Q E ↔ Q () (f s) :=
  Iff.rfl

@[simp] theorem wp_ofExcept (r : Except ε α) : wp (ofExcept r : Txn ρ σ ε α) x s Q E ↔
    (∀ a, r = .ok a → Q a s) ∧ ∀ e, r = .error e → E e := by
  cases r <;> simp [ofExcept]

@[simp] theorem wp_expect (a : Option α) (e : ε) : wp (expect a e : Txn ρ σ ε α) x s Q E ↔
    (∀ b, a = some b → Q b s) ∧ (a = none → E e) := by
  cases a <;> simp [expect]

@[simp] theorem wp_demand {Q : Unit → σ → Prop} (c : Prop) [Decidable c] (e : ε) :
    wp (demand c e : Txn ρ σ ε Unit) x s Q E ↔ (c → Q () s) ∧ (¬c → E e) := by
  unfold demand
  split_ifs with h <;> simp [h]

@[simp] theorem wp_ite (c : Prop) [Decidable c] (m n : Txn ρ σ ε α) :
    wp (if c then m else n) x s Q E ↔ (c → wp m x s Q E) ∧ (¬c → wp n x s Q E) := by
  split_ifs with h <;> simp [h]

variable {m : Txn ρ σ ε α}

theorem wp.mono {Q' : α → σ → Prop} {E' : ε → Prop} (h : wp m x s Q E)
    (hQ : ∀ a s', Q a s' → Q' a s') (hE : ∀ e, E e → E' e) : wp m x s Q' E' := by
  unfold wp at *
  split at h
  · exact hQ _ _ h
  · exact hE _ h

theorem wp.ok (h : wp m x s Q E) {a : α} {s' : σ} (hm : m x s = .ok (a, s')) : Q a s' := by
  unfold wp at h
  rwa [hm] at h

theorem wp.error (h : wp m x s Q E) {e : ε} (hm : m x s = .error e) : E e := by
  unfold wp at h
  rwa [hm] at h

/-- The atomic effect of a transaction. A failure leaves the state as it was. -/
def commit (m : Txn ρ σ ε α) (x : ρ) (s : σ) : Except ε α × σ :=
  match m x s with
  | .ok (a, s') => (.ok a, s')
  | .error e => (.error e, s)

theorem commit_cases (m : Txn ρ σ ε α) (x : ρ) (s : σ) :
    (∃ a s', m x s = .ok (a, s') ∧ m.commit x s = (.ok a, s')) ∨
      ∃ e, m x s = .error e ∧ m.commit x s = (.error e, s) := by
  unfold commit
  cases h : m x s with
  | ok p => exact Or.inl ⟨p.1, p.2, rfl, rfl⟩
  | error e => exact Or.inr ⟨e, rfl, rfl⟩

end Txn

/-! ## Tables -/

variable {R κ : Type*} [DecidableEq κ]

def row (key : R → κ) (k : κ) (t : List R) : Option R :=
  t.find? fun r => key r = k

/-- The rows that satisfy the condition rewritten, the others kept. -/
def update (p : R → Bool) (f : R → R) (t : List R) : List R :=
  t.map fun r => if p r then f r else r

variable {g : R → κ} {t : List R} {r : R} {k : κ}

theorem row_some (h : row g k t = some r) : r ∈ t ∧ g r = k :=
  ⟨List.mem_of_find?_eq_some h, by simpa using List.find?_some h⟩

theorem row_eq_none : row g k t = none ↔ ∀ r ∈ t, g r ≠ k := by
  simp [row]

theorem row_append (key : R → κ) (k : κ) (t u : List R) :
    row key k (t ++ u) = (row key k t).or (row key k u) := by
  simp [row]

theorem row_cons (key : R → κ) (k : κ) (r : R) (t : List R) :
    row key k (r :: t) = if key r = k then some r else row key k t := by
  by_cases h : key r = k <;> simp [row, h]

theorem row_append_of_some (h : row g k t = some r) (u : List R) : row g k (t ++ u) = some r := by
  simp [row_append, h]

theorem row_append_new (h : row g (g r) t = none) : row g (g r) (t ++ [r]) = some r := by
  rw [row_append, h, row_cons, if_pos rfl, Option.none_or]

theorem row_of_mem (hn : (t.map g).Nodup) (hr : r ∈ t) : row g (g r) t = some r := by
  induction t with
  | nil => simp at hr
  | cons a t ih =>
    rw [List.map_cons, List.nodup_cons] at hn
    rw [row_cons]
    rcases List.mem_cons.1 hr with rfl | hr
    · rw [if_pos rfl]
    · have hne : g a ≠ g r := fun h => hn.1 (by rw [h]; exact List.mem_map_of_mem hr)
      rw [if_neg hne, ih hn.2 hr]

theorem filter_key (hn : (t.map g).Nodup) (hr : r ∈ t) : t.filter (fun q => g q = g r) = [r] := by
  induction t with
  | nil => simp at hr
  | cons a t ih =>
    rw [List.map_cons, List.nodup_cons] at hn
    rcases List.mem_cons.1 hr with rfl | hr
    · have hnone : t.filter (fun q => g q = g r) = [] :=
        List.filter_eq_nil_iff.2 fun q hq heq =>
          hn.1 (of_decide_eq_true heq ▸ List.mem_map_of_mem hq)
      simp [hnone]
    · have hne : g a ≠ g r := fun h => hn.1 (h ▸ List.mem_map_of_mem hr)
      rw [List.filter_cons_of_neg (by simpa using hne), ih hn.2 hr]

variable {p : R → Bool}

theorem countP_key (hn : (t.map g).Nodup) (hr : r ∈ t) (hp : p r = true)
    (hkey : ∀ q, p q = true → g q = g r) : t.countP p = 1 := by
  have hfilter : t.filter p = (t.filter fun q => g q = g r).filter p := by
    rw [List.filter_filter]
    refine List.filter_congr fun q _ => ?_
    by_cases hq : p q = true
    · simp [hkey q hq]
    · simp [hq]
  rw [List.countP_eq_length_filter, hfilter, filter_key hn hr]
  simp [hp]

variable {f : R → R}

theorem mem_update : r ∈ update p f t ↔ ∃ a ∈ t, (if p a then f a else a) = r :=
  List.mem_map

theorem update_append (p : R → Bool) (f : R → R) (t u : List R) :
    update p f (t ++ u) = update p f t ++ update p f u :=
  List.map_append

theorem update_eq_self (h : ∀ r ∈ t, p r = false) (f : R → R) : update p f t = t := by
  rw [update]
  exact (List.map_congr_left fun r hr => by simp [h r hr]).trans (List.map_id t)

theorem update_append_new (h : row g (g r) t = none) (f : R → R) :
    update (fun q => g q = g r) f (t ++ [r]) = t ++ [f r] := by
  rw [update_append, update_eq_self fun q hq => by simpa using row_eq_none.1 h q hq]
  simp [update]

variable {γ : Type*}

theorem map_update {g : R → γ} (hf : ∀ r, g (f r) = g r) (t : List R) :
    (update p f t).map g = t.map g := by
  rw [update, List.map_map]
  refine List.map_congr_left fun r _ => ?_
  simp only [Function.comp]
  split_ifs
  · exact hf r
  · rfl

theorem row_update (hf : ∀ r, g (f r) = g r) (k : κ) (t : List R) :
    row g k (update p f t) = (row g k t).map fun r => if p r then f r else r := by
  induction t with
  | nil => rfl
  | cons a t ih =>
    have hk : g (if p a then f a else a) = g a := by
      split_ifs
      · exact hf a
      · rfl
    rw [update, List.map_cons, row_cons, row_cons, hk]
    by_cases h : g a = k
    · rw [if_pos h, if_pos h, Option.map_some]
    · rw [if_neg h, if_neg h]
      exact ih

theorem update_mem_cons (hk : ∀ r, g (f r) = g r) (hf : ∀ r, f (f r) = f r) (k : κ) (ks : List κ)
    (t : List R) : update (fun r => g r ∈ ks) f (update (fun r => g r = k) f t) =
      update (fun r => g r ∈ k :: ks) f t := by
  simp only [update, List.map_map]
  refine List.map_congr_left fun r _ => ?_
  by_cases h : g r = k
  · by_cases hks : k ∈ ks <;> simp [h, hk, hf, hks]
  · simp [h]

theorem update_mem_nil (key : R → κ) (f : R → R) (t : List R) :
    update (fun r => key r ∈ ([] : List κ)) f t = t :=
  update_eq_self (fun _ _ => by simp) f

theorem filter_notMem_cons (key : R → κ) (k : κ) (ks : List κ) (t : List R) :
    (t.filter fun r => key r ≠ k).filter (fun r => key r ∉ ks) =
      t.filter fun r => key r ∉ k :: ks := by
  rw [List.filter_filter]
  exact List.filter_congr fun r _ => by by_cases h : key r = k <;> simp [h]

theorem nodup_insert [DecidableEq γ] {g : R → γ} (hn : (t.map g).Nodup) (h : row g (g r) t = none) :
    ((t ++ [r]).map g).Nodup := by
  rw [List.map_append, List.nodup_append]
  refine ⟨hn, by simp, ?_⟩
  rintro a ha b hb rfl
  obtain ⟨q, hq, rfl⟩ := List.mem_map.1 ha
  exact row_eq_none.1 h q hq (by simpa using hb)

end Transaction
