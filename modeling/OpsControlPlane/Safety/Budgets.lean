import OpsControlPlane.Lib.Windows
import OpsControlPlane.Safety.Executions

/-!
# Budgets of class B

A request of class B reserves an attempt if fewer than `max_attempts` were used under its key
since `window_seconds` before its clock sample. `BudgetOk` says what this keeps: the key of
an attempt is one of a runbook (`key_runbook`: of one only), no window of that runbook has
more attempts than it allows, and an action of class B that can still start has its attempt.

`class_b_budget` is the budget over every run, in whatever order the clock samples come.
-/

set_option linter.unusedSectionVars false

namespace OpsControlPlane

open JsonText Calendar Transaction Calls Windows

variable [Platform]

/-! ## Keys -/

def Runbook.HasKey (r : Runbook) (key : String) : Prop :=
  ∃ parameters, r.budgetKey parameters = .ok (some key)

theorem Runbook.HasKey.shape {r : Runbook} {key : String} (h : r.HasKey key) :
    (∃ budget, r.budget = some budget) ∧ ∃ rendered, key = r.id ++ ":" ++ rendered := by
  obtain ⟨parameters, h⟩ := h
  unfold Runbook.budgetKey at h
  cases hb : r.budget with
  | none =>
    rw [hb] at h
    cases h
  | some budget =>
    rw [hb] at h
    obtain ⟨rendered, -, h⟩ := bind_eq_ok.1 h
    exact ⟨⟨budget, rfl⟩, _, (Option.some.inj (Except.ok.inj h)).symm⟩

theorem Runbook.colon_notMem (r : Runbook) : ':' ∉ r.id.toList := by
  have h := r.id_shape
  rw [isRunbookId, Regex.leads_iff, Text.toChars_eq] at h
  obtain ⟨c, t, heq, hc, -, ht⟩ := h
  rw [heq]
  intro hmem
  rcases List.mem_cons.1 hmem with rfl | hmem
  · exact absurd hc (by decide)
  · exact absurd (ht _ hmem) (by decide)

theorem key_runbook {b : Broker} {r r' : Runbook} {key : String}
    (hr : r ∈ b.registry.runbooks) (hr' : r' ∈ b.registry.runbooks) (h : r.HasKey key)
    (h' : r'.HasKey key) : r = r' := by
  obtain ⟨-, x, hx⟩ := h.shape
  obtain ⟨-, y, hy⟩ := h'.shape
  have heq : r.id.toList ++ ':' :: x.toList = r'.id.toList ++ ':' :: y.toList := by
    simpa [String.toList_append] using congrArg String.toList (hx.symm.trans hy)
  -- the identifier is what stands before the first colon
  have hpart : ∀ (r : Runbook) (x : List Char),
      (r.id.toList ++ ':' :: x).takeWhile (fun c => c ≠ ':') = r.id.toList := by
    intro r x
    have hall : ∀ c ∈ r.id.toList, decide (c ≠ ':') = true := by
      intro c hc
      exact decide_eq_true fun h => r.colon_notMem (h ▸ hc)
    rw [List.takeWhile_append_of_pos hall]
    simp
  have hid : r.id.toList = r'.id.toList := by
    rw [← hpart r x.toList, heq, hpart]
  exact List.inj_on_of_nodup_map b.registry.nodup hr hr' (String.toList_inj.1 hid)

/-! ## The invariant -/

def BudgetRow.used (u : BudgetRow) : Option ℤ :=
  (parseTimestamp u.usedAt).map fun t => (t.micros : ℤ)

/-- The number of attempts under a key in the closed window of so many seconds that begins at
`lo`, in microseconds. -/
def usedWithin (key : String) (lo : ℤ) (seconds : ℕ) (t : List BudgetRow) : ℕ :=
  t.countP fun u => decide (u.budgetKey = key) && within BudgetRow.used (seconds * 1000000) lo u

structure BudgetOk (b : Broker) (s : ActionTables) : Prop where
  once : (s.budgetUsage.map BudgetRow.actionId).Nodup
  timed : ∀ u ∈ s.budgetUsage, ∃ t, u.usedAt = isoformat t
  keyed : ∀ u ∈ s.budgetUsage, ∃ r ∈ b.registry.runbooks, r.HasKey u.budgetKey
  bounded : ∀ r ∈ b.registry.runbooks, ∀ budget ∈ r.budget, ∀ key, r.HasKey key →
    Bounded BudgetRow.used (fun u => u.budgetKey = key) (budget.windowSeconds * 1000000)
      budget.maxAttempts s.budgetUsage
  charged : ∀ r ∈ s.actions, r.actionClass = .b → ¬ApprovalsOk.Settled r →
    ∃ u ∈ s.budgetUsage, u.actionId = r.id ∧ r.budgetKey = some u.budgetKey

namespace BudgetOk

variable {b : Broker} {s s' : ActionTables}

/-- Rewriting actions that are settled by it, or that were not before. -/
theorem update (h : BudgetOk b s) {p : ActionRow → Bool} {f : ActionRow → ActionRow}
    {approvals : List ApprovalRow} (hf : ∀ r, (f r).terms = r.terms)
    (hs : ∀ r, p r = true → ¬ApprovalsOk.Settled (f r) → ¬ApprovalsOk.Settled r) :
    BudgetOk b ⟨Transaction.update p f s.actions, approvals, s.budgetUsage⟩ where
  once := h.once
  timed := h.timed
  keyed := h.keyed
  bounded := h.bounded
  charged r hr hclass hset := by
    obtain ⟨q, hq, rfl⟩ := mem_update.1 hr
    split_ifs at hclass hset ⊢ with hp
    · have hc : (f q).actionClass = q.actionClass := by
        simpa [ActionRow.terms] using congrArg ActionRow.actionClass (hf q)
      have hid : (f q).id = q.id := by
        simpa using congrArg ActionRow.id (hf q)
      have hkey : (f q).budgetKey = q.budgetKey := by
        simpa [ActionRow.terms] using congrArg ActionRow.budgetKey (hf q)
      rw [hid, hkey]
      exact h.charged q hq (hc.symm.trans hclass) (hs q hp hset)
    · exact h.charged q hq hclass hset

theorem insert (h : BudgetOk b s) {r : ActionRow}
    (hr : r.actionClass = .b → ApprovalsOk.Settled r) :
    BudgetOk b { s with actions := s.actions ++ [r] } where
  once := h.once
  timed := h.timed
  keyed := h.keyed
  bounded := h.bounded
  charged q hq hclass hset := by
    rcases List.mem_append.1 hq with hq | hq
    · exact h.charged q hq hclass hset
    · obtain rfl := List.mem_singleton.1 hq
      exact absurd (hr hclass) hset

theorem used_usage (a : NewAction) (key : String) :
    (a.usage key).used = some (a.now.micros : ℤ) := by
  simp [BudgetRow.used, NewAction.usage]

theorem since_used {u : BudgetRow} {t : DateTime} (ht : u.usedAt = isoformat t) (lo : ℤ) :
    since BudgetRow.used lo u = decide (lo ≤ (t.micros : ℤ)) := by
  have hused : u.used = some (t.micros : ℤ) := by
    unfold BudgetRow.used
    rw [ht, parseTimestamp_isoformat, Option.map_some]
  unfold since
  rw [hused, Option.any_some]

variable {budget : BudgetSpec} {key : String} {cutoff : DateTime} {a : NewAction}

theorem usedSince_eq (h : BudgetOk b s) (hres : Reserves a budget key cutoff) :
    s.budgetUsage.countP (fun u => decide (u.budgetKey = key) &&
      since BudgetRow.used (a.now.micros - budget.windowSeconds * 1000000) u) =
      usedSince key (isoformat cutoff) s.budgetUsage := by
  have hcut := DateTime.micros_addSeconds hres.cutoff_eq
  refine List.countP_congr fun u hu => ?_
  obtain ⟨t, ht⟩ := h.timed u hu
  rw [since_used ht, ht]
  simp only [Bool.and_eq_true, decide_eq_true_eq, isoformat_le_iff, DateTime.le_iff]
  constructor
  · rintro ⟨hkey, hle⟩
    exact ⟨hkey, by omega⟩
  · rintro ⟨hkey, hle⟩
    exact ⟨hkey, by omega⟩

/-- A request that reserves an attempt. -/
theorem reserve (h : BudgetOk b s) (hp : Planned b a) (hres : Reserves a budget key cutoff)
    (hlt : usedSince key (isoformat cutoff) s.budgetUsage < budget.maxAttempts)
    (hu : row BudgetRow.actionId a.id s.budgetUsage = none) :
    BudgetOk b ⟨s.actions ++ [a.row], s.approvals, s.budgetUsage ++ [a.usage key]⟩ where
  once := nodup_insert (r := a.usage key) h.once hu
  timed u hu' := by
    rcases List.mem_append.1 hu' with hu' | hu'
    · exact h.timed u hu'
    · obtain rfl := List.mem_singleton.1 hu'
      exact ⟨a.now, rfl⟩
  keyed u hu' := by
    rcases List.mem_append.1 hu' with hu' | hu'
    · exact h.keyed u hu'
    · obtain rfl := List.mem_singleton.1 hu'
      obtain ⟨parameters, hkey⟩ := hp.key
      exact ⟨a.runbook, hp.runbook_mem, parameters, hkey.trans (congrArg _ hres.key_eq)⟩
  bounded r hr budget' hb key' hkey' := by
    by_cases heq : key = key'
    · -- the same key is the same runbook, and so the same budget
      subst heq
      obtain ⟨parameters, hkey⟩ := hp.key
      obtain rfl : r = a.runbook := key_runbook hr hp.runbook_mem hkey'
        ⟨parameters, hkey.trans (congrArg _ hres.key_eq)⟩
      obtain rfl : budget' = budget := Option.some.inj (hb.symm.trans hres.budget_eq)
      refine (h.bounded _ hr _ hb key hkey').append (used_usage a key) ?_
      rw [h.usedSince_eq hres]
      exact hlt
    · refine (h.bounded r hr budget' hb key' hkey').skip ?_
      exact decide_eq_false heq
  charged q hq hclass hset := by
    rcases List.mem_append.1 hq with hq | hq
    · obtain ⟨u, hu, heq⟩ := h.charged q hq hclass hset
      exact ⟨u, List.mem_append_left _ hu, heq⟩
    · obtain rfl := List.mem_singleton.1 hq
      exact ⟨a.usage key, by simp, rfl, hres.key_eq⟩

/-- Every commit keeps the budgets. -/
theorem step (h : BudgetOk b s) {t : Tx} (hs : ActionStep b s t s')
    (hp : ∀ a, t = .insertAction a → Planned b a) : BudgetOk b s' := by
  have settled : ∀ (st : ActionStatus) (now : String), st ≠ .pendingApproval → st ≠ .authorized →
      st ≠ .approved → ∀ r : ActionRow, ApprovalsOk.Settled (r.setStatus st now) :=
    fun st now h1 h2 h3 r => ⟨h1, h2, h3⟩
  cases hs with
  | keep => exact h
  | request a hid hclass => exact h.insert fun hc => absurd hc hclass
  | exhaust a => exact h.insert fun _ => settled _ _ (by simp) (by simp) (by simp) a.row
  | reserve a budget key cutoff hid hclass hres hlt hu => exact h.reserve (hp a rfl) hres hlt hu
  | expirePending a =>
    exact h.update (terms_setStatus _ _)
      fun r _ hno => absurd (settled _ _ (by simp) (by simp) (by simp) r) hno
  | expireApproved a =>
    exact h.update (terms_setStatus _ _)
      fun r _ hno => absurd (settled _ _ (by simp) (by simp) (by simp) r) hno
  | start a =>
    exact h.update (terms_setStatus _ _)
      fun r _ hno => absurd (settled _ _ (by simp) (by simp) (by simp) r) hno
  | finish a result =>
    refine h.update (terms_finish _ _) fun r _ hno => absurd ?_ hno
    simp only [ApprovalsOk.Settled, ExecutionResult.finish, ExecutionResult.status]
    split_ifs <;> simp
  | expireRequest d =>
    exact h.update (terms_setStatus _ _)
      fun r _ hno => absurd (settled _ _ (by simp) (by simp) (by simp) r) hno
  | decide d =>
    -- a decision is about an action that waits for one
    exact h.update (terms_setStatus _ _)
      fun r hr _ hset => hset.1 (of_decide_eq_true hr).2
  | recover =>
    exact h.update (terms_interrupt _)
      fun r _ hno => absurd (by simp [ApprovalsOk.Settled, ActionRow.interrupt]) hno

theorem runbook_window (h : BudgetOk b s) {r : Runbook} (hr : r ∈ b.registry.runbooks)
    (hb : budget ∈ r.budget) (hkey : r.HasKey key) (lo : ℤ) :
    usedWithin key lo budget.windowSeconds s.budgetUsage ≤ budget.maxAttempts :=
  h.bounded r hr budget hb key hkey lo

theorem policy_window (h : BudgetOk b s) (key : String) (lo : ℤ) :
    usedWithin key lo b.policy.windowSeconds s.budgetUsage ≤ b.policy.maxAttempts := by
  rcases Nat.eq_zero_or_pos
    (usedWithin key lo b.policy.windowSeconds s.budgetUsage) with h0 | hpos
  · omega
  · obtain ⟨u, hu, hin⟩ := List.countP_pos_iff.1 hpos
    rw [Bool.and_eq_true] at hin
    obtain rfl := of_decide_eq_true hin.1
    obtain ⟨r, hr, hkey⟩ := h.keyed u hu
    obtain ⟨⟨budget, hb⟩, -⟩ := hkey.shape
    obtain ⟨hmax, hwindow⟩ := b.budgets r hr budget hb
    have hle : (b.policy.windowSeconds : ℤ) * 1000000 ≤ budget.windowSeconds * 1000000 := by
      have : (b.policy.windowSeconds : ℤ) ≤ budget.windowSeconds := by exact_mod_cast hwindow
      omega
    exact (h.bounded r hr budget hb _ hkey).mono hle hmax lo

end BudgetOk

theorem budgets_carried (b : Broker) : Carried b (fun db => BudgetOk b db.actionTables)
    fun db db' => db.actionTables.Grows db'.actionTables where
  fresh := by
    refine ⟨?_, ?_, ?_, ?_, ?_⟩
    · simp [Db.actionTables, Db.fresh]
    · simp [Db.actionTables, Db.fresh]
    · simp [Db.actionTables, Db.fresh]
    · intro r _ budget _ key _
      exact bounded_nil
    · simp [Db.actionTables, Db.fresh]
  refl db := .refl _
  trans _ _ _ := .trans
  step h t x db db' r hK hR hA hcommit := by
    have hstep := Tx.actionStep hcommit
    refine ⟨hK.step hstep ?_, hstep.grows⟩
    rintro a rfl
    exact hA

section budgets

variable {b : Broker} {ms : List (Moment (brokerSystem b))} {s : State (brokerSystem b)}
  {m : Moment (brokerSystem b)}

theorem Starts.unsettled (hr : Run (freshState b) ms s) (hm : m ∈ ms) {r : ActionRow}
    (hs : Starts m r) : ¬ApprovalsOk.Settled r := by
  obtain ⟨c, a, runbookId, hperf, haid⟩ := hs.commit hr hm
  obtain ⟨hK, -⟩ := (approvals_carried b).moment hr hm hperf
  obtain ⟨i, x, k, -, -, -, hperform⟩ := hperf
  have hcommit : (Tx.startAction a runbookId).commit b x.env m.before.store =
      (.ok (), m.after.store) := hperform
  obtain ⟨⟨q, hq, hqid, hno⟩, -⟩ := (Tx.actionStep hcommit).start_settles
  obtain rfl : q = r := List.inj_on_of_nodup_map hK.ids hq hs.1 (hqid.trans haid)
  exact hno

theorem grows_of_mem (hr : Run (freshState b) ms s) (hm : m ∈ ms) :
    m.before.store.actionTables.Grows s.store.actionTables := by
  have hgrows : ∀ m' ∈ ms, m'.before.store.actionTables.Grows m'.after.store.actionTables := by
    intro m' hm'
    rcases commit_of_mem hr hm' with heq | ⟨c, t, a, x, -, hcommit⟩
    · rw [heq]
      exact .refl _
    · exact (Tx.actionStep hcommit).grows
  obtain ⟨ms₁, ms₂, rfl, -⟩ := hr.of_mem hm
  obtain ⟨-, -, hrest⟩ := hr.around
  refine hrest.keeps (J := fun t : State (brokerSystem b) =>
    m.before.store.actionTables.Grows t.store.actionTables) (hgrows m hm)
    fun m' hm' h => h.trans (hgrows m' ?_)
  simp [hm']

/-- The budget of class B: no window of a runbook has more attempts under one of its keys
than the runbook allows, nor a window of the policy more under any key than the policy
allows, and an action of class B that starts has used one attempt. -/
theorem class_b_budget (hr : Run (freshState b) ms s) :
    (∀ r ∈ b.registry.runbooks, ∀ budget ∈ r.budget, ∀ key, r.HasKey key → ∀ lo,
      usedWithin key lo budget.windowSeconds s.store.budgetUsage ≤ budget.maxAttempts) ∧
    (∀ key lo, usedWithin key lo b.policy.windowSeconds s.store.budgetUsage ≤
      b.policy.maxAttempts) ∧
    (∀ u ∈ s.store.budgetUsage, (∃ t, u.usedAt = isoformat t) ∧
      ∃ r ∈ b.registry.runbooks, r.HasKey u.budgetKey) ∧
    ∀ m ∈ ms, ∀ r, Starts m r → r.actionClass = .b → ∃ u,
      m.before.store.budgetUsage.filter (fun u => u.actionId = r.id) = [u] ∧
      s.store.budgetUsage.filter (fun u => u.actionId = r.id) = [u] ∧
      r.budgetKey = some u.budgetKey := by
  have hcarried := budgets_carried b
  have hok := (hcarried.run hr).1
  refine ⟨fun r hmem budget hb key hkey lo => hok.runbook_window hmem hb hkey lo,
    fun key lo => hok.policy_window key lo, fun u hu => ⟨hok.timed u hu, hok.keyed u hu⟩, ?_⟩
  intro m hm r hs hclass
  obtain ⟨c, a, runbookId, hperf, -⟩ := hs.commit hr hm
  obtain ⟨hK, -⟩ := hcarried.moment hr hm hperf
  obtain ⟨u, hu, hid, hkey⟩ := hK.charged r hs.1 hclass (hs.unsettled hr hm)
  have hu' : u ∈ s.store.budgetUsage := (grows_of_mem hr hm).budgetUsage.subset hu
  refine ⟨u, ?_, ?_, hkey⟩
  · rw [← hid]
    exact filter_key hK.once hu
  · rw [← hid]
    exact filter_key hok.once hu'

end budgets

end OpsControlPlane

namespace OpsControlPlane.Sample

open Transaction Calls

/-- Alice requests a restart. The next operation is the start of the action. -/
def restarting : List (Move (brokerSystem broker)) :=
  .spawn (request "alice" "restart" (uuid 1)) :: goOn 0 7 1000 100

theorem restarting_starts : ∃ s ∈ (freshState broker).exec restarting,
    ∃ s' ∈ s.step (.act 0 (choice 1000 400)), ∃ r ∈ s.store.actions,
      r.status ≠ .running ∧ r.actionClass = .b ∧
        ∃ r' ∈ s'.store.actions, r'.id = r.id ∧ r'.status = .running := by
  decide +kernel

/-- An action of class B starts in a run of the sample broker, and has used the attempt of its
window. -/
theorem class_b_budget_sample : ∃ ms s m r u, Run (freshState broker) ms s ∧ m ∈ ms ∧
    Starts m r ∧ r.actionClass = .b ∧
    s.store.budgetUsage.filter (fun u => u.actionId = r.id) = [u] ∧
    r.budgetKey = some u.budgetKey ∧
    ∀ lo, usedWithin u.budgetKey lo 600 s.store.budgetUsage ≤ 1 := by
  obtain ⟨ms, s, s', hr, r, hmem, hne, hc, hrun⟩ := Run.of_exec_step restarting_starts
  have hs : Starts ⟨s, .act 0 (choice 1000 400), s'⟩ r := ⟨hmem, hne, hrun⟩
  obtain ⟨-, hpolicy, -, hcharged⟩ := class_b_budget hr
  obtain ⟨u, -, hu, hkey⟩ := hcharged _ (by simp) r hs hc
  exact ⟨_, s', _, r, u, hr, by simp, hs, hc, hu, hkey, fun lo => hpolicy _ lo⟩

end OpsControlPlane.Sample
