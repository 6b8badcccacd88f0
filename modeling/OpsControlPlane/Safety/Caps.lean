import OpsControlPlane.Lib.Evolving
import OpsControlPlane.Orchestrator.Ledger

/-!
# Caps of the budget ledger

A day or a month of a provider or of an account is capped in every run in which each
reservation is granted on the day of the clock sample that it was checked with
(`window_caps`). The source takes the sample before it waits for the write lock, and dates the
row after it, so that a reservation that waits over midnight is counted in a window that
nobody compared with the limits.

The caps of a route, of a task and of a mission with one provider have no window.
`ledger_caps` gives them for every run, and says that the end of a call whose usage is within
what was reserved raises none of the totals.
-/

namespace OpsOrchestrator

open Calendar Transaction Calls

section caps

variable {budgets : List (String × ProviderAccountBudget)}

/-! ## Totals -/

/-- The condition does not look at what the end of a call rewrites. -/
structure Stable (p : ReservationRow → Bool) : Prop where
  complete : ∀ a : CompleteArgs, ∀ x r, p (a.apply x r) = p r
  uncertain : ∀ a : UncertainArgs, ∀ x r, p (a.apply x r) = p r

theorem stable_during (o : Owner) (w : Window) (t : DateTime) : Stable (o.during w t) := by
  constructor <;> intros <;> cases o <;> rfl

theorem stable_forRoute (routeId : String) : Stable (forRoute routeId) := by
  constructor <;> intros <;> rfl

theorem stable_forTask (accountId routeId : String) : Stable (forTask accountId routeId) := by
  constructor <;> intros <;> rfl

theorem stable_forMission (providerId missionId : String) :
    Stable (forMission providerId missionId) := by
  constructor <;> intros <;> rfl

variable {f : ReservationRow → ReservationRow} {p q : ReservationRow → Bool}

theorem countP_update (hp : ∀ r, p (f r) = p r) (rows : Ledger) :
    (update q f rows).countP p = rows.countP p := by
  rw [update, List.countP_map]
  refine List.countP_congr fun r _ => ?_
  by_cases hq : q r = true <;> simp [hq, hp]

variable {rows : Ledger}

/-- Rewriting rows to smaller ones raises no total. -/
theorem aggregate_update_within (hp : ∀ r, p (f r) = p r)
    (hle : ∀ r ∈ rows, q r = true → (f r).tokens ≤ r.tokens ∧ (f r).cost ≤ r.cost) :
    (aggregate p (update q f rows)).Within (aggregate p rows) := by
  have hrow : ∀ r ∈ rows, (if q r then f r else r).tokens ≤ r.tokens ∧
      (if q r then f r else r).cost ≤ r.cost := by
    intro r hr
    split_ifs with hq
    · exact hle r hr hq
    · exact ⟨le_rfl, le_rfl⟩
  have hfilter : (update q f rows).filter p =
      (rows.filter p).map fun r => if q r then f r else r := by
    rw [update, List.filter_map]
    congr 1
    refine List.filter_congr fun r _ => ?_
    by_cases hq : q r = true <;> simp [hq, hp]
  constructor
  · simp only [aggregate, countP_update hp]
    exact le_rfl
  · simp only [aggregate, hfilter, List.map_map]
    exact List.sum_le_sum fun r hr => (hrow r (List.mem_of_mem_filter hr)).1
  · simp only [aggregate, hfilter, List.map_map]
    exact List.sum_le_sum fun r hr => (hrow r (List.mem_of_mem_filter hr)).2

variable {a g : ReserveArgs} {x t : DateTime}

theorem aggregate_grant (hp : p (a.row x) = true) (rows : Ledger) :
    aggregate p (rows ++ [a.row x]) = a.added (aggregate p rows) := by
  rw [aggregate_append, if_pos hp]
  have htokens : (a.row x).tokens = a.inputTokens + a.maxOutputTokens := rfl
  have hcost : (a.row x).cost = a.reservedCost := rfl
  simp only [ReserveArgs.added, htokens, hcost, add_assoc]

/-! ## Days and months -/

def ReserveArgs.limits (budgets : List (String × ProviderAccountBudget)) (a : ReserveArgs) :
    Owner → Window → Option Totals
  | .provider id, w => if a.provider.providerId = id then some (a.provider.budget.within w)
    else none
  | .account id, w => if a.provider.accountId = some id then
      (budgets.lookup id).map fun l => l.within w
    else none

/-- The rows of the owner in the window are none, or their totals were within the limits when
the last of them was granted. -/
def Capped (ms : List (Moment (ledgerSystem budgets))) (rows : Ledger) (o : Owner) (w : Window)
    (t : DateTime) : Prop :=
  rows.countP (o.during w t) = 0 ∨ ∃ m ∈ ms, ∃ a x limits, Commits m (.reserve a) x ∧
    w.prefixOf x = w.prefixOf t ∧ a.limits budgets o w = some limits ∧
    (aggregate (o.during w t) m.after.store).Within limits ∧
    rows.countP (o.during w t) = m.after.store.countP (o.during w t)

variable {o : Owner} {w : Window}

/-- A grant that is dated in the window it was checked for caps the window. -/
theorem Checked.capped (h : Checked budgets a rows) (hsame : w.prefixOf a.now = w.prefixOf x)
    (hin : o.during w t (a.row x) = true) : w.prefixOf x = w.prefixOf t ∧
      ∃ limits, a.limits budgets o w = some limits ∧
        (aggregate (o.during w t) (rows ++ [a.row x])).Within limits := by
  have hpays : o.pays (a.row x) = true := (Bool.and_eq_true _ _ ▸ hin).1
  have hwin : w.prefixOf t = w.prefixOf x :=
    (prefixOf_isPrefixOf w t x).1 (Bool.and_eq_true _ _ ▸ hin).2
  have hduring : o.during w a.now = o.during w t := by
    funext r
    rw [Owner.during, Owner.during, hsame, hwin]
  refine ⟨hwin.symm, ?_⟩
  rw [aggregate_grant hin, ← hduring]
  cases o with
  | provider id =>
    have hid : a.provider.providerId = id := of_decide_eq_true hpays
    refine ⟨_, if_pos hid, ?_⟩
    rw [← hid]
    exact h.provider w
  | account id =>
    have hid : a.provider.accountId = some id := of_decide_eq_true hpays
    obtain ⟨l, hl, hacc⟩ := h.account id hid
    exact ⟨l.within w, by rw [ReserveArgs.limits, if_pos hid, hl, Option.map_some],
      hacc.windows w⟩

variable {ms : List (Moment (ledgerSystem budgets))} {s : State (ledgerSystem budgets)}

theorem Capped.mono {rows' : Ledger} (h : Capped ms rows o w t)
    (hrows : rows'.countP (o.during w t) = rows.countP (o.during w t))
    (m : Moment (ledgerSystem budgets)) : Capped (ms ++ [m]) rows' o w t := by
  rcases h with h0 | ⟨m₀, hm, a, x, limits, hc, hwin, hl, hwithin, hcount⟩
  · exact Or.inl (hrows.trans h0)
  · exact Or.inr ⟨m₀, List.mem_append_left _ hm, a, x, limits, hc, hwin, hl, hwithin,
      hrows.trans hcount⟩

/-- In a run in which each reservation is granted on the day of its clock sample, the number
of reservations of a provider or an account in a day or a month is within the limit of calls,
and the tokens and the cost were within their limits when the last of them was granted. -/
theorem window_caps (hr : Run (emptyLedger budgets) ms s)
    (hday : ∀ m ∈ ms, ∀ a x, Commits m (.reserve a) x →
      Window.day.prefixOf a.now = Window.day.prefixOf x) (o : Owner) (w : Window) (t : DateTime) :
    s.store.countP (o.during w t) = 0 ∨ ∃ m ∈ ms, ∃ a x limits, Commits m (.reserve a) x ∧
      w.prefixOf x = w.prefixOf t ∧ a.limits budgets o w = some limits ∧
      (aggregate (o.during w t) m.after.store).Within limits ∧
      s.store.countP (o.during w t) = m.after.store.countP (o.during w t) ∧
      (s.store.countP (o.during w t) : ℤ) ≤ limits.calls := by
  have hcapped : Capped ms s.store o w t := by
    induction hr with
    | start => exact Or.inl rfl
    | @step ms s s' mv hr h ih =>
      have ih := ih fun m hm => hday m (List.mem_append_left _ hm)
      rcases moment_ledger h with heq | ⟨tx, x, hc⟩
      · exact ih.mono (by rw [heq]) _
      cases tx with
      | reserve a =>
        obtain ⟨hchecked, hrows⟩ := hc.reserve
        have hrows : s'.store = s.store ++ [a.row x] := hrows
        by_cases hin : o.during w t (a.row x) = true
        · have hmem : (⟨s, mv, s'⟩ : Moment (ledgerSystem budgets)) ∈ ms ++ [⟨s, mv, s'⟩] := by simp
          have hsame := prefixOf_of_day (hday _ hmem a x hc) w
          obtain ⟨hwin, limits, hl, hwithin⟩ := hchecked.capped hsame hin
          rw [← hrows] at hwithin
          exact Or.inr ⟨_, hmem, a, x, limits, hc, hwin, hl, hwithin, rfl⟩
        · refine ih.mono ?_ _
          rw [hrows, List.countP_append, List.countP_singleton, if_neg hin, add_zero]
      | complete a =>
        obtain ⟨-, hrows⟩ := hc.complete
        refine ih.mono ?_ _
        rw [show s'.store = _ from hrows, countP_update ((stable_during o w t).complete a x)]
      | markUncertain a =>
        obtain ⟨-, hrows⟩ := hc.markUncertain
        refine ih.mono ?_ _
        rw [show s'.store = _ from hrows, countP_update ((stable_during o w t).uncertain a x)]
  rcases hcapped with h0 | ⟨m, hm, a, x, limits, hc, hwin, hl, hwithin, hcount⟩
  · exact Or.inl h0
  · refine Or.inr ⟨m, hm, a, x, limits, hc, hwin, hl, hwithin, hcount, ?_⟩
    rw [hcount]
    exact hwithin.calls

/-! ## Routes, tasks and missions -/

/-- What the table knows of a reservation that was granted: its row is there, and it holds
what was reserved as long as the call is open. -/
structure Recorded (rows : Ledger) (g : ReserveArgs) : Prop where
  present : ∃ r ∈ rows, r.callId = g.callId
  held : ∀ r ∈ rows, openCall g.callId r = true → r.reservedInputTokens = g.inputTokens ∧
    r.reservedOutputTokens = g.maxOutputTokens ∧ r.reservedCostMicrousd = g.reservedCost

theorem Recorded.close (h : Recorded rows g) {callId : String} (hid : ∀ r, (f r).callId = r.callId)
    (hst : ∀ r, (f r).status ≠ .reserved) : Recorded (update (openCall callId) f rows) g := by
  constructor
  · obtain ⟨r, hr, hcall⟩ := h.present
    refine ⟨_, mem_update.2 ⟨r, hr, rfl⟩, ?_⟩
    split_ifs
    · exact (hid r).trans hcall
    · exact hcall
  · intro r hr hopen
    obtain ⟨q, hq, rfl⟩ := mem_update.1 hr
    split_ifs at hopen ⊢
    · exact absurd (of_decide_eq_true hopen).2 (hst q)
    · exact h.held q hq hopen

theorem grants_recorded (hr : Run (emptyLedger budgets) ms s) : ∀ m ∈ ms, ∀ g y,
    Commits m (.reserve g) y → Recorded s.store g := by
  induction hr with
  | start => simp
  | @step ms s s' mv hr h ih =>
    intro m hm g y hg
    -- the reservations granted before
    have hold : m ∈ ms → Recorded s'.store g := by
      intro hm
      have hrec := ih m hm g y hg
      rcases moment_ledger h with heq | ⟨tx, x, hc⟩
      · rw [heq]
        exact hrec
      cases tx with
      | reserve a =>
        obtain ⟨hchecked, hrows⟩ := hc.reserve
        have hrows : s'.store = s.store ++ [a.row x] := hrows
        rw [hrows]
        obtain ⟨r, hr, hcall⟩ := hrec.present
        have hne : a.callId ≠ g.callId := fun heq => hchecked.fresh r hr (hcall.trans heq.symm)
        refine ⟨⟨r, List.mem_append_left _ hr, hcall⟩, fun q hq hopen => ?_⟩
        rcases List.mem_append.1 hq with hq | hq
        · exact hrec.held q hq hopen
        · obtain rfl := List.mem_singleton.1 hq
          exact absurd (of_decide_eq_true hopen).1 hne
      | complete a =>
        rw [show s'.store = _ from hc.complete.2]
        exact hrec.close (fun _ => rfl) fun _ => by simp [CompleteArgs.apply]
      | markUncertain a =>
        rw [show s'.store = _ from hc.markUncertain.2]
        exact hrec.close (fun _ => rfl) fun _ => by simp [UncertainArgs.apply]
    rcases List.mem_append.1 hm with hm | hm
    · exact hold hm
    · obtain rfl := List.mem_singleton.1 hm
      obtain ⟨hchecked, hrows⟩ := hg.reserve
      have hrows : s'.store = s.store ++ [g.row y] := hrows
      rw [hrows]
      refine ⟨⟨g.row y, by simp, rfl⟩, fun q hq hopen => ?_⟩
      rcases List.mem_append.1 hq with hq | hq
      · exact absurd (of_decide_eq_true hopen).1 (hchecked.fresh q hq)
      · obtain rfl := List.mem_singleton.1 hq
        exact ⟨rfl, rfl, rfl⟩

/-- The end of a call, by the caller of a granted reservation, with usage within what was
reserved: the tokens, and the cost at the prices that are passed. -/
inductive EndsWithin (g : ReserveArgs) : LedgerTx → Prop
  | complete (inputTokens outputTokens : ℤ) (prices : Prices)
      (hin : inputTokens ≤ g.inputTokens) (hout : outputTokens ≤ g.maxOutputTokens)
      (hcost : estimatedCostMicrousd inputTokens outputTokens prices ≤ g.reservedCost) :
      EndsWithin g (.complete ⟨g.callId, inputTokens, outputTokens,
        estimatedCostMicrousd inputTokens outputTokens prices⟩)
  | uncertain (errorCode : String) (inputTokens outputTokens : Option ℤ) (prices : Option Prices)
      (hin : ∀ n ∈ inputTokens, n ≤ g.inputTokens)
      (hout : ∀ n ∈ outputTokens, n ≤ g.maxOutputTokens)
      (hcost : ∀ p ∈ prices,
        estimatedCostMicrousd g.inputTokens g.maxOutputTokens p ≤ g.reservedCost) :
      EndsWithin g (.markUncertain
        (retain g.reservation errorCode inputTokens outputTokens prices))

theorem retain_within {errorCode : String} {inputTokens outputTokens : Option ℤ}
    {prices : Option Prices} (hnonneg : 0 ≤ g.inputTokens ∧ 0 ≤ g.maxOutputTokens)
    (hin : ∀ n ∈ inputTokens, n ≤ g.inputTokens) (hout : ∀ n ∈ outputTokens, n ≤ g.maxOutputTokens)
    (hcost : ∀ p ∈ prices,
      estimatedCostMicrousd g.inputTokens g.maxOutputTokens p ≤ g.reservedCost) :
    retain g.reservation errorCode inputTokens outputTokens prices =
      ⟨g.callId, errorCode, g.inputTokens, g.maxOutputTokens, g.reservedCost⟩ := by
  have hmax : ∀ (b : ℤ) (n : Option ℤ), 0 ≤ b → (∀ k ∈ n, k ≤ b) → max b (n.getD 0) = b := by
    intro b n hb hn
    cases n with
    | none => exact max_eq_left hb
    | some k => exact max_eq_left (hn k rfl)
  have h1 := hmax _ _ hnonneg.1 hin
  have h2 := hmax _ _ hnonneg.2 hout
  simp only [retain, ReserveArgs.reservation, h1, h2]
  cases prices with
  | none => rfl
  | some p => simp only [max_eq_left (hcost p rfl)]

/-- A call that ends within what was reserved raises no total. -/
theorem Recorded.ends_within {m : Moment (ledgerSystem budgets)} {t : LedgerTx}
    (h : Recorded m.before.store g) (hnonneg : 0 ≤ g.inputTokens ∧ 0 ≤ g.maxOutputTokens)
    (he : EndsWithin g t) (hc : Commits m t x) (hp : Stable p) :
    (aggregate p m.after.store).Within (aggregate p m.before.store) := by
  have hrow : ∀ r ∈ m.before.store, openCall g.callId r = true →
      r.tokens = g.inputTokens + g.maxOutputTokens ∧ r.cost = g.reservedCost := by
    intro r hr hopen
    obtain ⟨hi, ho, hcost⟩ := h.held r hr hopen
    have hst : r.status = .reserved := (of_decide_eq_true hopen).2
    have hne : r.status ≠ .completed := by simp [hst]
    exact ⟨by rw [ReservationRow.tokens, if_neg hne, hi, ho],
      by rw [ReservationRow.cost, if_neg hne, hcost]⟩
  cases he with
  | complete inputTokens outputTokens prices hin hout hcost =>
    rw [hc.complete.2]
    refine aggregate_update_within (hp.complete _ x) fun r hr hopen => ?_
    obtain ⟨ht, hco⟩ := hrow r hr hopen
    have htokens : (CompleteArgs.apply ⟨g.callId, inputTokens, outputTokens,
        estimatedCostMicrousd inputTokens outputTokens prices⟩ x r).tokens =
        inputTokens + outputTokens := rfl
    have hcost' : (CompleteArgs.apply ⟨g.callId, inputTokens, outputTokens,
        estimatedCostMicrousd inputTokens outputTokens prices⟩ x r).cost =
        estimatedCostMicrousd inputTokens outputTokens prices := rfl
    rw [htokens, hcost', ht, hco]
    exact ⟨add_le_add hin hout, hcost⟩
  | uncertain errorCode inputTokens outputTokens prices hin hout hcost =>
    rw [retain_within hnonneg hin hout hcost] at hc
    rw [hc.markUncertain.2]
    refine aggregate_update_within (hp.uncertain _ x) fun r hr hopen => ?_
    obtain ⟨ht, hco⟩ := hrow r hr hopen
    have htokens : (UncertainArgs.apply ⟨g.callId, errorCode, g.inputTokens, g.maxOutputTokens,
        g.reservedCost⟩ x r).tokens = g.inputTokens + g.maxOutputTokens := rfl
    have hcost' : (UncertainArgs.apply ⟨g.callId, errorCode, g.inputTokens, g.maxOutputTokens,
        g.reservedCost⟩ x r).cost = g.reservedCost := rfl
    rw [htokens, hcost', ht, hco]
    exact ⟨le_rfl, le_rfl⟩

/-- When a reservation is granted, its route is within the requested maximum, its task within
the limits of the account, and its mission with its provider within the limit of the
provider. A call that ends within what was reserved raises none of the totals. -/
theorem ledger_caps (hr : Run (emptyLedger budgets) ms s) :
    (∀ m ∈ ms, ∀ a x, Commits m (.reserve a) x →
      (∀ max ∈ a.requestedMaxCost, (aggregate (forRoute a.routeId) m.after.store).cost ≤ max) ∧
      (∀ accountId ∈ a.provider.accountId, ∃ l, budgets.lookup accountId = some l ∧
        (aggregate (forTask accountId a.routeId) m.after.store).Within l.task) ∧
      (aggregate (forMission a.provider.providerId a.missionId) m.after.store).cost ≤
        a.provider.budget.missionCostMicrousd) ∧
    ∀ l₁ m l₂, ms = l₁ ++ m :: l₂ → ∀ m₀ ∈ l₁, ∀ g y, Commits m₀ (.reserve g) y →
      ∀ t x, EndsWithin g t → Commits m t x →
      (∀ routeId, (aggregate (forRoute routeId) m.after.store).Within
        (aggregate (forRoute routeId) m.before.store)) ∧
      (∀ accountId routeId, (aggregate (forTask accountId routeId) m.after.store).Within
        (aggregate (forTask accountId routeId) m.before.store)) ∧
      ∀ providerId missionId, (aggregate (forMission providerId missionId) m.after.store).Within
        (aggregate (forMission providerId missionId) m.before.store) := by
  constructor
  · intro m hm a x hc
    obtain ⟨hchecked, hrows⟩ := hc.reserve
    rw [hrows]
    refine ⟨fun max hmax => ?_, fun accountId hacc => ?_, ?_⟩
    · rw [aggregate_grant (by simp [forRoute, ReserveArgs.row])]
      exact hchecked.route max hmax
    · obtain ⟨l, hl, hac⟩ := hchecked.account accountId hacc
      have hacc : a.provider.accountId = some accountId := hacc
      refine ⟨l, hl, ?_⟩
      rw [aggregate_grant (by simp [forTask, ReserveArgs.row, hacc])]
      exact hac.task
    · rw [aggregate_grant (by simp [forMission, ReserveArgs.row])]
      exact hchecked.mission
  · rintro l₁ m l₂ rfl m₀ hm₀ g y hg t x he hc
    obtain ⟨hr₁, -⟩ := hr.around
    have hrec := grants_recorded hr₁ m₀ hm₀ g y hg
    have hnonneg := hg.reserve.1.nonneg
    exact ⟨fun routeId => hrec.ends_within hnonneg he hc (stable_forRoute routeId),
      fun accountId routeId => hrec.ends_within hnonneg he hc (stable_forTask accountId routeId),
      fun providerId missionId =>
        hrec.ends_within hnonneg he hc (stable_forMission providerId missionId)⟩

end caps

section settling

variable {budgets : List (String × ProviderAccountBudget)}
  {ms : List (Moment (ledgerSystem budgets))} {s : State (ledgerSystem budgets)}

/-- What the end of a call leaves as it is. -/
def ReservationRow.terms (r : ReservationRow) : ReservationRow :=
  { r with
    completedAt := none, status := .reserved, reservedInputTokens := 0, reservedOutputTokens := 0,
    actualInputTokens := none, actualOutputTokens := none, reservedCostMicrousd := 0,
    actualCostMicrousd := none, errorCode := none }

/-- A row keeps its terms, and all of it once its call has ended. -/
abbrev ReservationRow.Settles : ReservationRow → ReservationRow → Prop :=
  Freezes ReservationRow.terms fun r => r.status ≠ .reserved

theorem settles_close {f : ReservationRow → ReservationRow} (hf : ∀ r, (f r).terms = r.terms)
    (callId : String) {rows : Ledger} (h : (rows.map ReservationRow.callId).Nodup) :
    ((update (openCall callId) f rows).map ReservationRow.callId).Nodup ∧
      Evolves ReservationRow.Settles rows (update (openCall callId) f rows) := by
  have hid : ∀ r, (f r).callId = r.callId := fun r =>
    show (f r).terms.callId = r.terms.callId by rw [hf r]
  exact ⟨by rwa [map_update hid],
    .freeze hf (fun r hopen => not_not_intro (of_decide_eq_true hopen).2) rows⟩

theorem settles_perform (o : LedgerOp) (x : LedgerChoice) (rows : Ledger)
    (h : (rows.map ReservationRow.callId).Nodup) :
    ((performLedger budgets o x rows).2.map ReservationRow.callId).Nodup ∧
      Evolves ReservationRow.Settles rows (performLedger budgets o x rows).2 := by
  have hrefl : Evolves ReservationRow.Settles rows rows := .refl .refl rows
  cases o with
  | tx t =>
    change ((t.commit budgets x.fault x.time rows).2.map _).Nodup ∧
      Evolves _ rows (t.commit budgets x.fault x.time rows).2
    rcases hcommit : t.commit budgets x.fault x.time rows with ⟨r, rows'⟩
    cases r with
    | error e =>
      obtain rfl := LedgerTx.commit_error hcommit
      exact ⟨h, hrefl⟩
    | ok r =>
      have hrun := LedgerTx.commit_ok hcommit
      cases t with
      | reserve a =>
        obtain ⟨hchecked, -, rfl⟩ := (reserveTx_spec a).ok hrun
        exact ⟨nodup_insert (r := a.row x.time) h (row_eq_none.2 hchecked.fresh), hrefl.append _⟩
      | complete a =>
        obtain ⟨-, rfl⟩ := (completeTx_spec a).ok hrun
        exact settles_close (f := a.apply x.time) (fun _ => rfl) a.callId h
      | markUncertain a =>
        obtain ⟨-, rfl⟩ := (uncertainTx_spec a).ok hrun
        exact settles_close (f := a.apply x.time) (fun _ => rfl) a.callId h
  | _ => exact ⟨h, hrefl⟩

/-- A reservation has one row, which stays with its terms, and is not written again once its call
has ended. -/
theorem reservations_settle (hr : Run (emptyLedger budgets) ms s) :
    (s.store.map ReservationRow.callId).Nodup ∧
      ∀ m ∈ ms, Evolves ReservationRow.Settles m.before.store s.store :=
  ⟨hr.store (K := fun rows => (rows.map ReservationRow.callId).Nodup) List.nodup_nil
    fun o x rows h => (settles_perform o x rows h).1,
    hr.relates (.refl .refl) (fun _ _ _ => .trans .trans) List.nodup_nil settles_perform⟩

end settling

end OpsOrchestrator

/-! ## A sample ledger

Two providers of one account, each capped at one call a day and at a cost of ten for a
mission, which is what one call of the sample reserves. -/

namespace OpsOrchestrator.Sample

open Calendar Transaction Calls

def instant (day seconds : ℕ) : DateTime :=
  ⟨(day * 86400 + seconds) * 1000000 % maxMicros, Nat.mod_lt _ (by decide)⟩

def budgets : List (String × ProviderAccountBudget) :=
  [("acct", ⟨9, 9, 9000000, 9000000, 90, 90, 9, 9000000, 90⟩)]

def provider (id : String) : ProviderConfig where
  providerId := id
  accountId := some "acct"
  capabilityProfile := "general"
  role := .reasoning
  kind := "openai_chat"
  location := .remote
  priceTiers := []
  chatFamily := some id
  budget := ⟨1, 9, 9000000, 9000000, 90, 90, 10⟩

/-- A reservation of a million tokens, at a cost of ten. -/
def call (id missionId : String) : LedgerRequest :=
  .reserve ⟨"route", missionId, provider id, "model", "sample", 1000000, 0, none, (10, 0), none⟩

/-- The next operation of a call, at an instant. -/
def act (i : ℕ) (t : DateTime) (uuid : String) : Move (ledgerSystem budgets) :=
  .act i ⟨t, uuid, none⟩

def granting (s : State (ledgerSystem budgets)) :
    Move (ledgerSystem budgets) → Option (ReserveArgs × DateTime)
  | .act i x => match s.next i with
    | some (.tx (.reserve a)) =>
      match (LedgerTx.commit budgets (.reserve a) x.fault x.time s.store).1 with
      | .ok _ => some (a, x.time)
      | .error _ => none
    | _ => none
  | _ => none

variable {a : ReserveArgs} {x : DateTime}

theorem commits_of_granting {s s' : State (ledgerSystem budgets)} {mv : Move (ledgerSystem budgets)}
    (h : s.step mv = some s') (hg : granting s mv = some (a, x)) :
    Commits ⟨s, mv, s'⟩ (.reserve a) x := by
  unfold granting at hg
  split at hg
  · next i choice =>
    split at hg
    · next b hnext =>
      split at hg
      · next r hr =>
        obtain ⟨rfl, rfl⟩ := Prod.mk.inj (Option.some.inj hg)
        obtain ⟨c, hp⟩ := Moment.Performs.of_next h hnext
        have hans : ((ledgerSystem budgets).perform (.tx (.reserve b)) choice s.store).1 = .ok r :=
          hr
        rw [hans] at hp
        exact ⟨c, r, i, choice, rfl, rfl, hp⟩
      · cases hg
    · cases hg
  · cases hg

theorem granting_of_commits {m : Moment (ledgerSystem budgets)} (h : Commits m (.reserve a) x) :
    granting m.before m.move = some (a, x) := by
  obtain ⟨c, r, i, choice, hmove, rfl, hp⟩ := h
  have hnext := hp.next hmove
  obtain ⟨j, y, k, hj, -, -, hperf⟩ := hp
  cases hmove.symm.trans hj
  have hans : (LedgerTx.commit budgets (.reserve a) choice.fault choice.time m.before.store).1 =
      .ok r := congrArg Prod.fst hperf
  rw [hmove, granting, hnext]
  simp only [hans]

/-- A grant of the move is dated on the day of its clock sample. -/
def punctual (s : State (ledgerSystem budgets)) (mv : Move (ledgerSystem budgets)) : Bool :=
  match granting s mv with
  | some (a, x) => Window.day.prefixOf a.now = Window.day.prefixOf x
  | none => true

/-- One call samples the clock before midnight and waits, and the other call reserves after
midnight first. -/
def midnight : List (Move (ledgerSystem budgets)) :=
  [.spawn (call "p" "a"), .spawn (call "p" "b"), act 0 (instant 1 86399) "", act 1 (instant 2 0) "",
    act 1 (instant 2 1) "b", act 1 (instant 2 2) "", act 0 (instant 2 3) "a",
    act 0 (instant 2 4) ""]

theorem midnight_count : ∃ s ∈ (emptyLedger budgets).exec midnight,
    s.calls.map Call.request = [call "p" "a", call "p" "b"] ∧
      s.store.countP ((Owner.provider "p").during .day (instant 2 0)) = 2 := by
  decide +kernel

/-- More reservations of a day than the provider's limit of calls. -/
theorem daily_cap_exceeded : ∃ (ms : List (Moment (ledgerSystem budgets)))
    (s : State (ledgerSystem budgets)), Run (emptyLedger budgets) ms s ∧
    s.calls.map Call.request = [call "p" "a", call "p" "b"] ∧
    (provider "p").budget.dailyCalls <
      s.store.countP ((Owner.provider "p").during .day (instant 2 0)) := by
  obtain ⟨s, hs, hcalls, hcount⟩ := midnight_count
  obtain ⟨ms, hr, -⟩ := Run.of_exec hs
  exact ⟨ms, s, hr, hcalls, by rw [hcount]; decide⟩

/-- Both calls reserve on the day of their samples, with two providers. -/
def sameDay : List (Move (ledgerSystem budgets)) :=
  [.spawn (call "p" "a"), .spawn (call "q" "a"), act 0 (instant 2 0) "", act 1 (instant 2 0) "",
    act 1 (instant 2 1) "b", act 1 (instant 2 2) "", act 0 (instant 2 3) "a"]

theorem same_day : ∃ s ∈ (emptyLedger budgets).execWhile punctual sameDay,
    punctual s (act 0 (instant 2 4) "") = true ∧
    ∃ s' ∈ s.step (act 0 (instant 2 4) ""),
      s'.store.countP ((Owner.provider "p").during .day (instant 2 9)) = 1 ∧
      ∃ g ∈ granting s (act 0 (instant 2 4) ""), g.1.provider = provider "p" ∧
        (aggregate (fun r => r.missionId = g.1.missionId) s'.store).cost = 20 := by
  decide +kernel

/-- A run whose grants are dated on the days of their samples. -/
theorem window_caps_sample : ∃ (ms : List (Moment (ledgerSystem budgets)))
    (s : State (ledgerSystem budgets)), Run (emptyLedger budgets) ms s ∧ ∃ m ∈ ms, ∃ a x limits,
    Commits m (.reserve a) x ∧
    (s.store.countP ((Owner.provider "p").during .day (instant 2 9)) : ℤ) ≤ limits.calls ∧
    a.limits budgets (.provider "p") .day = some limits := by
  obtain ⟨s, hs, hlast, s', hs', hone, -⟩ := same_day
  obtain ⟨ms, hr, htest⟩ := Run.of_execWhile hs
  have hday : ∀ m ∈ ms ++ [⟨s, act 0 (instant 2 4) "", s'⟩], ∀ a x,
      Commits m (.reserve a) x → Window.day.prefixOf a.now = Window.day.prefixOf x := by
    intro m hm a x hc
    have hp : punctual m.before m.move = true := by
      rcases List.mem_append.1 hm with hm | hm
      · exact htest m hm
      · obtain rfl := List.mem_singleton.1 hm
        exact hlast
    rw [punctual, granting_of_commits hc] at hp
    exact of_decide_eq_true hp
  have hrun := hr.step hs'
  rcases window_caps hrun hday (.provider "p") .day (instant 2 9) with h0 |
    ⟨m, hm, a, x, limits, hc, -, hl, -, -, hle⟩
  · rw [hone] at h0
    cases h0
  · exact ⟨_, s', hrun, m, hm, a, x, limits, hc, hle, hl⟩

/-- A run with a grant. -/
theorem ledger_caps_sample : ∃ (ms : List (Moment (ledgerSystem budgets)))
    (s : State (ledgerSystem budgets)), Run (emptyLedger budgets) ms s ∧ ∃ m ∈ ms, ∃ a x,
    Commits m (.reserve a) x ∧
    (aggregate (forMission a.provider.providerId a.missionId) m.after.store).cost ≤
      a.provider.budget.missionCostMicrousd := by
  obtain ⟨s, hs, -, s', hs', -, ⟨a, x⟩, hg, -⟩ := same_day
  obtain ⟨ms, hr, -⟩ := Run.of_execWhile hs
  have hc := commits_of_granting hs' hg
  exact ⟨_, s', hr.step hs', _, by simp, a, x, hc,
    ((ledger_caps (hr.step hs')).1 _ (by simp) a x hc).2.2⟩

/-- A mission that costs more, over all providers, than the limit of the provider that is
granted the last reservation. -/
theorem mission_cap_exceeded : ∃ (ms : List (Moment (ledgerSystem budgets)))
    (s : State (ledgerSystem budgets)), Run (emptyLedger budgets) ms s ∧ ∃ m ∈ ms, ∃ a x,
    Commits m (.reserve a) x ∧ a.provider.budget.missionCostMicrousd <
      (aggregate (fun r => r.missionId = a.missionId) m.after.store).cost := by
  obtain ⟨s, hs, -, s', hs', -, ⟨a, x⟩, hg, hprovider, hcost⟩ := same_day
  obtain ⟨ms, hr, -⟩ := Run.of_execWhile hs
  refine ⟨_, s', hr.step hs', _, by simp, a, x, commits_of_granting hs' hg, ?_⟩
  have hprovider : a.provider = provider "p" := hprovider
  rw [hprovider]
  exact lt_of_lt_of_eq (by decide) hcost.symm

/-- A reservation of a million tokens, which is to be marked with a usage of one token, at a price
that is five times as high. -/
def dearer : List (Move (ledgerSystem budgets)) :=
  [.spawn (call "p" "a"), act 0 (instant 2 0) "", act 0 (instant 2 1) "a", act 0 (instant 2 2) "",
    .spawn (.markUncertain ⟨"a", 1000000, 0, 10⟩ "timeout" (some 1) none (some (50, 0)))]

theorem dearer_day : ∃ s ∈ (emptyLedger budgets).exec dearer,
    ∃ s' ∈ s.step (act 1 (instant 2 3) ""), estimatedCostMicrousd 1 0 (50, 0) ≤ 10 ∧
      (aggregate (forMission "p" "a") s.store).cost = 10 ∧
      (aggregate (forMission "p" "a") s'.store).cost = 50 ∧
      s'.store.map ReservationRow.status = [.uncertain] ∧
      ∃ s'' ∈ s'.step (.spawn (call "q" "b")), ∃ t ∈ s''.exec [act 2 (instant 2 4) "",
        act 2 (instant 2 5) "b", act 2 (instant 2 6) ""],
        t.store.map ReservationRow.status = [.uncertain, .reserved] := by
  decide +kernel

/-- The mark retains the price of the reserved tokens, which is more than was reserved. -/
theorem uncertain_raises : ∃ (ms : List (Moment (ledgerSystem budgets)))
    (s : State (ledgerSystem budgets)), Run (emptyLedger budgets) ms s ∧ ∃ m ∈ ms,
    (aggregate (forMission "p" "a") m.before.store).cost = 10 ∧
    estimatedCostMicrousd 1 0 (50, 0) ≤ 10 ∧
    (aggregate (forMission "p" "a") m.after.store).cost = 50 := by
  obtain ⟨s, hs, s', hs', husage, hbefore, hafter, -⟩ := dearer_day
  obtain ⟨ms, hr, -⟩ := Run.of_exec hs
  exact ⟨_, s', hr.step hs', _, List.mem_append_right _ (List.mem_singleton_self _), hbefore,
    husage, hafter⟩

/-- The row of the call that has ended stays as it is. -/
theorem reservations_settle_sample : ∃ (ms : List (Moment (ledgerSystem budgets)))
    (s : State (ledgerSystem budgets)), Run (emptyLedger budgets) ms s ∧
    s.store.map ReservationRow.status = [.uncertain, .reserved] ∧
    (s.store.map ReservationRow.callId).Nodup ∧ ∃ m ∈ ms,
      m.before.store.map ReservationRow.status = [.uncertain] ∧
      Evolves ReservationRow.Settles m.before.store s.store := by
  obtain ⟨s, hs, s', hs', -, -, -, hended, s'', hs'', t, ht, htwo⟩ := dearer_day
  obtain ⟨ms, hr, -⟩ := Run.of_exec hs
  obtain ⟨ms', hr', -⟩ := Run.of_exec ht
  have hrun := ((hr.step hs').step hs'').trans hr'
  obtain ⟨hnodup, hsettles⟩ := reservations_settle hrun
  refine ⟨_, t, hrun, htwo, hnodup, ⟨s', .spawn (call "q" "b"), s''⟩, ?_, hended,
    hsettles _ ?_⟩ <;>
  simp

end OpsOrchestrator.Sample
