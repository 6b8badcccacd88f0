import OpsControlPlane.Lib.Evolving
import OpsControlPlane.Orchestrator.Runs
import OpsControlPlane.Safety.Caps

/-!
# Missions, outcomes and accounts

Whatever transactions commit, in any order, a mission has one project, a route one run and one
outcome at most, and an outcome is of a run that was routed to a provider with a completed call
(`missions_bound`). The binding of the accounts is all or nothing (`accounts_bound`).
-/

namespace OpsOrchestrator

open Calendar Transaction

variable {db db' db'' : OrchestratorDb} {t : DateTime}

abbrev RunRow.Ends : RunRow → RunRow → Prop :=
  Freezes RunRow.toRunCall fun r => r.status ≠ "running"

/-- A usage keeps its call, its account once it has one, and its completion. -/
structure ReservationRow.Retains (r r' : ReservationRow) : Prop where
  routeId : r'.routeId = r.routeId
  providerId : r'.providerId = r.providerId
  model : r'.model = r.model
  account : ∀ id ∈ r.providerAccountId, r'.providerAccountId = some id
  completed : r.status = .completed → r'.status = .completed

theorem ReservationRow.Retains.refl (r : ReservationRow) : r.Retains r :=
  ⟨rfl, rfl, rfl, fun _ h => h, id⟩

theorem ReservationRow.Retains.trans (r r' r'' : ReservationRow) (h : r.Retains r')
    (h' : r'.Retains r'') : r.Retains r'' :=
  ⟨h'.routeId.trans h.routeId, h'.providerId.trans h.providerId, h'.model.trans h.model,
    fun id hid => h'.account id (h.account id hid), fun hc => h'.completed (h.completed hc)⟩

theorem ReservationRow.Settles.retains {r r' : ReservationRow} (h : r.Settles r') :
    r.Retains r' := by
  obtain ⟨hterms, hended⟩ := h
  refine ⟨congrArg (fun q => q.routeId) hterms, congrArg (fun q => q.providerId) hterms,
    congrArg (fun q => q.model) hterms, fun id hid => ?_, fun hc => ?_⟩
  · exact (congrArg (fun q => q.providerAccountId) hterms).trans hid
  · rw [hended (by simp [hc]), hc]

structure Grows (db db' : OrchestratorDb) : Prop where
  usages : Evolves ReservationRow.Retains db.usages db'.usages
  runs : Evolves RunRow.Ends db.runs db'.runs
  validations : db.validations <+: db'.validations

theorem Grows.refl (db : OrchestratorDb) : Grows db db :=
  ⟨.refl .refl _, .refl .refl _, List.prefix_rfl⟩

theorem Grows.trans (h : Grows db db') (h' : Grows db' db'') : Grows db db'' :=
  ⟨h.usages.trans .trans h'.usages, h.runs.trans .trans h'.runs, h.validations.trans h'.validations⟩

/-- The outcome is of a run that was routed to a provider with a completed call. -/
def ValidationRow.Proven (v : ValidationRow) (db : OrchestratorDb) : Prop :=
  (∃ r ∈ db.runs, r.routeId = v.routeId ∧ r.missionId = v.missionId ∧ r.projectId = v.projectId ∧
    r.taskType = v.taskType ∧ r.status = "routed" ∧ r.finalProvider = some v.providerId ∧
    r.finalRole = some v.role) ∧
  ∃ u ∈ db.usages, u.routeId = v.routeId ∧ u.providerId = v.providerId ∧ u.model = v.model ∧
    u.status = .completed

theorem ValidationRow.Proven.grows {v : ValidationRow} (h : v.Proven db) (hg : Grows db db') :
    v.Proven db' := by
  obtain ⟨⟨r, hr, h₁, h₂, h₃, h₄, hstatus, h₅, h₆⟩, u, hu, hroute, hprovider, hmodel, hc⟩ := h
  obtain ⟨r', hr', -, hended⟩ := hg.runs.mem hr
  obtain rfl := hended (by simp [hstatus])
  obtain ⟨u', hu', hret⟩ := hg.usages.mem hu
  exact ⟨⟨_, hr', h₁, h₂, h₃, h₄, hstatus, h₅, h₆⟩, u', hu', hret.routeId.trans hroute,
    hret.providerId.trans hprovider, hret.model.trans hmodel, hret.completed hc⟩

structure Bound (db : OrchestratorDb) : Prop where
  calls : (db.usages.map ReservationRow.callId).Nodup
  routes : (db.runs.map fun r => r.routeId).Nodup
  project : ∀ r ∈ db.runs, ∀ q ∈ db.runs, r.missionId = q.missionId → r.projectId = q.projectId
  outcomes : (db.validations.map fun v => v.routeId).Nodup
  proven : ∀ v ∈ db.validations, v.Proven db

/-- The tables stay bound if the runs are the ones that were started, and no outcome is new. -/
theorem Bound.keep (hs : Bound db) (hg : Grows db db')
    (hcalls : (db'.usages.map ReservationRow.callId).Nodup)
    (hruns : db'.runs.map RunRow.toRunCall = db.runs.map RunRow.toRunCall)
    (hval : db'.validations = db.validations) : Bound db' := by
  have hold : ∀ r ∈ db'.runs, ∃ q ∈ db.runs, q.toRunCall = r.toRunCall := fun r hr =>
    List.mem_map.1 (hruns ▸ List.mem_map_of_mem hr)
  refine ⟨hcalls, ?_, fun r hr q hq hm => ?_, hval ▸ hs.outcomes, fun v hv => ?_⟩
  · have hroutes := congrArg (List.map RunCall.routeId) hruns
    rw [List.map_map, List.map_map] at hroutes
    exact hroutes.symm ▸ hs.routes
  · obtain ⟨r₀, hr₀, hr⟩ := hold r hr
    obtain ⟨q₀, hq₀, hq⟩ := hold q hq
    have h := hs.project r₀ hr₀ q₀ hq₀
    rw [hr, hq] at h
    exact h hm
  · exact (hs.proven v (hval ▸ hv)).grows hg

theorem initializeTx_spec : initializeTx.wp t db (fun _ db' => db' = db) fun _ =>
    ¬∀ r ∈ db.runs, ∀ q ∈ db.runs, r.missionId = q.missionId → r.projectId = q.projectId := by
  simp only [initializeTx, Txn.wp_bind, Txn.wp_query, Txn.wp_demand]
  exact ⟨fun _ => trivial, fun h => h⟩

theorem startRun_spec (c : RunCall) (reason : String) : (startRun c reason).wp t db (fun _ db' =>
    (∀ r ∈ row (fun r => r.missionId) c.missionId db.runs, r.projectId = c.projectId) ∧
    row (fun r => r.routeId) c.routeId db.runs = none ∧ ∃ r : RunRow, r.toRunCall = c ∧
      db' = { db with runs := db.runs ++ [r] }) fun _ => True := by
  simp only [startRun, Txn.wp_bind, Txn.wp_query, Txn.wp_demand, Txn.wp_env, Txn.wp_modify]
  exact ⟨fun hproject => ⟨fun hroute => ⟨hproject, Option.isNone_iff_eq_none.1 hroute, _, rfl, rfl⟩,
    fun _ => trivial⟩, fun _ => trivial⟩

theorem finishRun_spec (a : FinishArgs) : (finishRun a).wp t db (fun _ db' =>
    db' = { db with runs := update (isRunning a.routeId) (a.apply t) db.runs }) fun _ => True := by
  simp [finishRun]

/-- The accounts are bound where there was none, and each provider is left with its own. -/
theorem bindAll_spec (accounts : List (String × Option String)) : (bindAll accounts).wp t db
    (fun _ db' => db'.runs = db.runs ∧ db'.validations = db.validations ∧
      db'.usages.map ReservationRow.callId = db.usages.map ReservationRow.callId ∧
      Evolves ReservationRow.Retains db.usages db'.usages ∧ ∀ p ∈ accounts, ∀ id ∈ p.2,
        ∀ r ∈ db'.usages, r.providerId = p.1 → r.providerAccountId = some id) fun _ => True := by
  induction accounts generalizing db with
  | nil => exact ⟨rfl, rfl, rfl, .refl .refl _, by simp⟩
  | cons p accounts ih =>
    obtain ⟨providerId, _ | id⟩ := p
    · simp only [bindAll, Txn.wp_bind, Txn.wp_query, Txn.wp_demand]
      refine ⟨fun _ => ih.mono (fun _ db' h => ?_) fun _ _ => trivial, fun _ => trivial⟩
      obtain ⟨h₁, h₂, h₃, h₄, h₅⟩ := h
      exact ⟨h₁, h₂, h₃, h₄, List.forall_mem_cons.2
        ⟨fun _ h => absurd h (Option.not_mem_none _), h₅⟩⟩
    · simp only [bindAll, Txn.wp_bind, Txn.wp_query, Txn.wp_demand, Txn.wp_modify]
      refine ⟨fun hconf => ih.mono (fun _ db' h => ?_) fun _ _ => trivial, fun _ => trivial⟩
      obtain ⟨h₁, h₂, h₃, h₄, h₅⟩ := h
      have hcalls := map_update
        (p := fun r => r.providerId = providerId ∧ r.providerAccountId = none)
        (g := ReservationRow.callId)
        (f := fun r => { r with providerAccountId := some id })
        (fun _ => rfl) db.usages
      refine ⟨h₁, h₂, h₃.trans hcalls, .trans .trans (.update .refl ?_) h₄,
        List.forall_mem_cons.2 ⟨?_, h₅⟩⟩
      · intro r _ hr
        refine ⟨rfl, rfl, rfl, fun id hid => ?_, fun h => h⟩
        rw [(of_decide_eq_true hr).2] at hid
        cases hid
      · intro _ hid r hr hprovider
        obtain rfl := Option.some.inj hid
        -- the row as it was bound, which the rest of the loop leaves bound
        have hlen := congrArg List.length h₃
        rw [List.length_map, List.length_map] at hlen
        obtain ⟨r₁, hr₁, hret⟩ := h₄.mem_of_length hlen hr
        refine hret.account id ?_
        obtain ⟨r₀, hr₀, rfl⟩ := mem_update.1 hr₁
        rw [hret.providerId] at hprovider
        split_ifs at hprovider ⊢ with hnone
        · rfl
        · exact (hconf r₀ hr₀ hprovider).resolve_left fun h =>
            hnone (decide_eq_true ⟨hprovider, h⟩)

theorem routed_eq_some {r : RunRow} {p : String × String} (h : r.routed = some p) :
    r.status = "routed" ∧ r.finalProvider = some p.1 ∧ r.finalRole = some p.2 := by
  obtain ⟨providerId, hp, h⟩ := Option.bind_eq_some_iff.1 h
  obtain ⟨role, hrole, h⟩ := Option.bind_eq_some_iff.1 h
  split_ifs at h with hc
  obtain rfl := Option.some.inj h
  exact ⟨hc.1, hp, hrole⟩

theorem recordModelValidation_spec (o : Outcome) (accounts : List (String × Option String)) :
    (recordModelValidation o accounts).wp t db (fun v db' => v.toOutcome = o ∧ v.Proven db ∧
      (∀ q ∈ db.validations, q.routeId ≠ o.routeId) ∧
      db' = { db with validations := db.validations ++ [v] }) fun _ => True := by
  simp only [recordModelValidation, Txn.wp_bind, Txn.wp_query, Txn.wp_expect, Txn.wp_demand,
    Txn.wp_env, Txn.wp_modify, Txn.wp_pure]
  refine ⟨fun run hrun => ⟨fun hid => ⟨fun p hp => ⟨fun u hu => ⟨fun hallowed => ?_,
    fun _ => trivial⟩, fun _ => trivial⟩, fun _ => trivial⟩, fun _ => trivial⟩, fun _ => trivial⟩
  obtain ⟨hmem, hroute⟩ := row_some hrun
  obtain ⟨hstatus, hprovider, hrole⟩ := routed_eq_some hp
  obtain ⟨hu, husage⟩ := List.mem_filter.1 (List.argmax_mem hu)
  obtain ⟨huroute, huprovider, hc⟩ := of_decide_eq_true husage
  exact ⟨trivial, ⟨⟨run, hmem, hroute, hid.1, hid.2, rfl, hstatus, hprovider, hrole⟩, u, hu,
    huroute, huprovider, rfl, hc⟩, hallowed.1, trivial⟩

/-- A transaction keeps the tables bound, and undoes nothing. -/
theorem Bound.step (hs : Bound db) {tx : DbTx} (h : tx.run t db = .ok ((), db')) :
    Bound db' ∧ Grows db db' := by
  cases tx with
  | initializeDb =>
    obtain rfl := initializeTx_spec.ok h
    exact ⟨hs, .refl db'⟩
  | ledger budgets tx =>
    change (tx.run budgets t db.usages).map (fun r => ((), { db with usages := r.2 })) = _ at h
    rcases hrun : tx.run budgets t db.usages with e | ⟨r, rows⟩ <;> rw [hrun] at h
    · cases h
    · obtain rfl := (Prod.mk.inj (Except.ok.inj h)).2
      have hperf : (performLedger budgets (.tx tx) ⟨t, "", none⟩ db.usages).2 = rows := by
        change ((tx.run budgets).commit t db.usages).2 = rows
        rw [Txn.commit, hrun]
      have hledger := @settles_perform budgets (.tx tx) ⟨t, "", none⟩ db.usages hs.calls
      rw [hperf] at hledger
      have hg : Grows db { db with usages := rows } :=
        ⟨hledger.2.mono fun _ _ h => h.retains, .refl .refl _, List.prefix_rfl⟩
      exact ⟨hs.keep hg hledger.1 rfl rfl, hg⟩
  | startRun c reason =>
    obtain ⟨hproject, hroute, r, rfl, rfl⟩ := (startRun_spec c reason).ok h
    have hg : Grows db { db with runs := db.runs ++ [r] } :=
      ⟨.refl .refl _, (Evolves.refl .refl _).append _, List.prefix_rfl⟩
    refine ⟨⟨hs.calls, nodup_insert hs.routes hroute, ?_, hs.outcomes,
      fun v hv => (hs.proven v hv).grows hg⟩, hg⟩
    have hnew : ∀ q ∈ db.runs, q.missionId = r.missionId → q.projectId = r.projectId := by
      intro q hq hm
      rcases hrow : row (fun r => r.missionId) r.missionId db.runs with - | q₀
      · exact absurd hm (row_eq_none.1 hrow q hq)
      · obtain ⟨hq₀, hm₀⟩ := row_some hrow
        exact (hs.project q hq q₀ hq₀ (hm.trans hm₀.symm)).trans (hproject q₀ hrow)
    intro r₁ hr₁ r₂ hr₂ hm
    rcases List.mem_append.1 hr₁ with h₁ | h₁ <;> rcases List.mem_append.1 hr₂ with h₂ | h₂
    · exact hs.project r₁ h₁ r₂ h₂ hm
    · obtain rfl := List.mem_singleton.1 h₂
      exact hnew r₁ h₁ hm
    · obtain rfl := List.mem_singleton.1 h₁
      exact (hnew r₂ h₂ hm.symm).symm
    · rw [List.mem_singleton.1 h₁, List.mem_singleton.1 h₂]
  | finishRun a =>
    obtain rfl := (finishRun_spec a).ok h
    have hrunning : ∀ r, isRunning a.routeId r = true → ¬r.status ≠ "running" :=
      fun r hr => not_not_intro (of_decide_eq_true hr).2
    have hg : Grows db { db with runs := update (isRunning a.routeId) (a.apply t) db.runs } :=
      ⟨.refl .refl _, .freeze (f := a.apply t) (fun _ => rfl) hrunning _, List.prefix_rfl⟩
    have hruns := map_update (p := isRunning a.routeId) (g := RunRow.toRunCall) (f := a.apply t)
      (fun _ => rfl) db.runs
    exact ⟨hs.keep hg hs.calls hruns rfl, hg⟩
  | bindProviderAccounts accounts =>
    obtain ⟨hruns, hval, hcalls, husages, -⟩ := (bindAll_spec _).ok h
    have hg : Grows db db' := ⟨husages, hruns ▸ .refl .refl _, hval ▸ List.prefix_rfl⟩
    exact ⟨hs.keep hg (hcalls ▸ hs.calls) (by rw [hruns]) hval, hg⟩
  | recordModelValidation o accounts =>
    have hspec : (DbTx.recordModelValidation o accounts).run.wp t db (fun _ db' => ∃ v,
        v.toOutcome = o ∧ v.Proven db ∧ (∀ q ∈ db.validations, q.routeId ≠ o.routeId) ∧
        db' = { db with validations := db.validations ++ [v] }) fun _ => True := by
      rw [DbTx.run, Txn.wp_bind]
      exact (recordModelValidation_spec o accounts).mono (fun v _ h => ⟨v, h⟩) fun _ _ => trivial
    obtain ⟨v, rfl, hv, hnew, rfl⟩ := hspec.ok h
    have hg : Grows db { db with validations := db.validations ++ [v] } :=
      ⟨.refl .refl _, .refl .refl _, List.prefix_append _ _⟩
    have houtcomes := nodup_insert hs.outcomes (row_eq_none.2 hnew)
    refine ⟨⟨hs.calls, hs.routes, hs.project, houtcomes, fun w hw => ?_⟩, hg⟩
    rcases List.mem_append.1 hw with hw | hw
    · exact (hs.proven w hw).grows hg
    · exact List.mem_singleton.1 hw ▸ hv.grows hg

theorem Bound.commit (hs : Bound db) (c : DbCall) :
    Bound (c.commit db).2 ∧ Grows db (c.commit db).2 := by
  unfold DbCall.commit
  cases c.fault with
  | some e => exact ⟨hs, .refl db⟩
  | none =>
    rcases Txn.commit_cases c.tx.run c.time db with ⟨_, db', h, heq⟩ | ⟨e, -, heq⟩
    · rw [heq]
      exact hs.step h
    · rw [heq]
      exact ⟨hs, .refl db⟩

theorem Bound.afterAll (hs : Bound db) (calls : List DbCall) :
    Bound (afterAll calls db) ∧ Grows db (afterAll calls db) := by
  induction calls generalizing db with
  | nil => exact ⟨hs, .refl db⟩
  | cons c calls ih =>
    obtain ⟨hc, hg⟩ := hs.commit c
    exact ⟨(ih hc).1, hg.trans (ih hc).2⟩

theorem bound_empty : Bound {} :=
  ⟨List.nodup_nil, List.nodup_nil, by simp, List.nodup_nil, by simp⟩

/-- Whatever is committed in any order, a mission has one project, a route one run and at most one
outcome, of a result that it was routed to, and no transaction undoes what is recorded. So the
database is never refused when a process starts. -/
theorem missions_bound (calls : List DbCall) : Bound (afterAll calls {}) ∧
    (∀ later, Grows (afterAll calls {}) (afterAll (calls ++ later) {})) ∧
    ∀ t, (initializeTx.commit t (afterAll calls {})).1 = .ok () := by
  obtain ⟨hs, -⟩ := bound_empty.afterAll calls
  refine ⟨hs, fun later => ?_, fun t => ?_⟩
  · have happend : afterAll (calls ++ later) {} = afterAll later (afterAll calls {}) :=
      List.foldl_append
    rw [happend]
    exact (hs.afterAll later).2
  · rcases Txn.commit_cases initializeTx t (afterAll calls {}) with ⟨_, _, -, heq⟩ | ⟨e, he, -⟩
    · rw [heq]
    · exact absurd hs.project (initializeTx_spec.error he)

/-- Each provider that is given an account is left with this account, or nothing changes. -/
theorem accounts_bound (accounts : List (String × Option String)) (t : DateTime)
    (fault : Option Exc) (db : OrchestratorDb) :
    let c : DbCall := ⟨.bindProviderAccounts accounts, t, fault⟩
    (∃ e, c.commit db = (.error e, db)) ∨ (c.commit db).1 = .ok () ∧
      Evolves ReservationRow.Retains db.usages (c.commit db).2.usages ∧
      ∀ p ∈ accounts, ∀ id ∈ p.2, ∀ r ∈ (c.commit db).2.usages,
        r.providerId = p.1 → r.providerAccountId = some id := by
  intro c
  unfold c DbCall.commit
  cases fault with
  | some e => exact .inl ⟨e, rfl⟩
  | none =>
    rcases Txn.commit_cases (DbTx.bindProviderAccounts accounts).run t db with
      ⟨_, db', h, heq⟩ | ⟨e, -, heq⟩
    · obtain ⟨-, -, -, husages, hbound⟩ := (bindAll_spec _).ok h
      refine .inr ⟨by rw [heq], ?_⟩
      rw [heq]
      exact ⟨husages, fun p hp => hbound p ((List.mem_insertionSort _).2 hp)⟩
    · exact .inl ⟨e, heq⟩

end OpsOrchestrator
