import OpsControlPlane.Safety.Budgets
import OpsControlPlane.Broker.Writes

/-!
# The rows of the requests

The broker only adds to its tables: a row stays, with all but the status, the result and the time
of the last write of an entity (`rows_kept`). Nor has a table two rows of one request, and a
request that has its row writes nothing again (`requests_once`).
-/

set_option linter.unusedSectionVars false

namespace OpsControlPlane

open Calendar Transaction Calls

variable [Platform]

/-- The tables whose rows have a request each. -/
inductive Journal where
  | missions
  | incidents
  | actions
  | missionStatusChanges
  | incidentStatusChanges
  | missionUpdates
  | missionCheckpoints
  | missionRecords
  | resourceLockOperations
  | missionClaimOperations
  | modelTraces
  | actionArtifactUpdates
  | incidentUpdates
deriving DecidableEq

def MissionRow.terms (r : MissionRow) : MissionRow :=
  { r with status := .opened, updatedAt := r.createdAt }

def IncidentRow.terms (r : IncidentRow) : IncidentRow :=
  { r with status := .opened, updatedAt := r.createdAt }

structure Table where
  Row : Type
  rows : Db → List Row
  request : Row → String

/-- The table, of an entity without what is written again. -/
def Journal.table : Journal → Table
  | missions => ⟨_, fun db => db.missions.map MissionRow.terms, MissionRow.requestId⟩
  | incidents => ⟨_, fun db => db.incidents.map IncidentRow.terms, IncidentRow.requestId⟩
  | actions => ⟨_, fun db => db.actions.map ActionRow.terms, ActionRow.requestId⟩
  | missionStatusChanges => ⟨_, Db.missionStatusChanges, StatusChangeRow.requestId⟩
  | incidentStatusChanges => ⟨_, Db.incidentStatusChanges, StatusChangeRow.requestId⟩
  | missionUpdates => ⟨_, Db.missionUpdates, UpdateRow.requestId⟩
  | missionCheckpoints => ⟨_, Db.missionCheckpoints, CheckpointRow.requestId⟩
  | missionRecords => ⟨_, Db.missionRecords, RecordRow.requestId⟩
  | resourceLockOperations => ⟨_, Db.resourceLockOperations, LockOperationRow.requestId⟩
  | missionClaimOperations => ⟨_, Db.missionClaimOperations, ClaimOperationRow.requestId⟩
  | modelTraces => ⟨_, Db.modelTraces, TraceRow.requestId⟩
  | actionArtifactUpdates => ⟨_, Db.actionArtifactUpdates, UpdateRow.requestId⟩
  | incidentUpdates => ⟨_, Db.incidentUpdates, UpdateRow.requestId⟩

def Db.rows (db : Db) (j : Journal) : List j.table.Row :=
  j.table.rows db

def Db.requests (db : Db) (j : Journal) : List String :=
  (db.rows j).map j.table.request

def Tx.request : Tx → Option (Journal × String)
  | createMission a => some (.missions, a.requestId)
  | createIncident a => some (.incidents, a.requestId)
  | insertAction a => some (.actions, a.requestId)
  | setMissionStatus a => some (.missionStatusChanges, a.requestId)
  | setIncidentStatus a => some (.incidentStatusChanges, a.requestId)
  | updateMissionState a _ => some (.missionUpdates, a.requestId)
  | createCheckpoint a => some (.missionCheckpoints, a.requestId)
  | addRecord a => some (.missionRecords, a.requestId)
  | resourceLock a => some (.resourceLockOperations, a.requestId)
  | claimNext a => some (.missionClaimOperations, a.requestId)
  | missionLease a => some (.missionClaimOperations, a.requestId)
  | recordModelTrace a => some (.modelTraces, a.requestId)
  | recordActionArtifacts a _ => some (.actionArtifactUpdates, a.requestId)
  | updateIncidentDetails a _ => some (.incidentUpdates, a.requestId)
  | _ => none

/-- A new request adds its row, and one that has its row writes nothing. -/
def Asks (db : Db) (j : Journal) (q : String) (db' : Db) : Prop :=
  (q ∈ db.requests j ∧ db' = db) ∨
    q ∉ db.requests j ∧ ∃ r, j.table.request r = q ∧ db'.rows j = db.rows j ++ [r]

variable {b : Broker} {db db' : Db} {t : Tx} {x : TxEnv} {j : Journal} {q : String}

section steps

variable {R : Type} {key : R → String} {l : List R} {c c' : Conn} {ds : List AuditDraft}

theorem mem_requests {r : R} (h : row key q l = some r) : q ∈ l.map key :=
  List.mem_map.2 ⟨r, row_some h⟩

theorem notMem_requests (h : row key q l = none) : q ∉ l.map key := by
  intro hq
  obtain ⟨r, hr, hrq⟩ := List.mem_map.1 hq
  exact row_eq_none.1 h r hr hrq

theorem notMem_terms {f : R → R} (h : row key q l = none) (hf : ∀ r, key (f r) = key r) :
    q ∉ (l.map f).map key := by
  have hkey : key ∘ f = key := funext hf
  rw [List.map_map, hkey]
  exact notMem_requests h

theorem Logs.rows (h : Logs x c ds c') : c'.db.rows = c.db.rows := by
  funext j
  rw [h.data]
  cases j <;> rfl

theorem Logs.asks (h : Logs x ⟨db', 0⟩ ds c) (hq : q ∉ db.requests j) {r : j.table.Row}
    (hr : j.table.request r = q) (hrows : db'.rows j = db.rows j ++ [r]) : Asks db j q c.db :=
  .inr ⟨hq, r, hr, by rw [h.rows, hrows]⟩

theorem Keyed.asks {α : Type} {same : R → Prop} {A : R → α → Prop} {N : α → Conn → Prop}
    {v : α} (h : Keyed (row key q l) same A N ⟨db, 0⟩ v c) (hl : db.requests j = l.map key)
    (hN : N v c → ∃ db₁ ds r, Logs x ⟨db₁, 0⟩ ds c ∧ j.table.request r = q ∧
      db₁.rows j = db.rows j ++ [r]) : Asks db j q c.db := by
  rcases h with ⟨prior, hp, -, -, rfl⟩ | ⟨hp, h⟩
  · exact .inl ⟨hl ▸ mem_requests hp, rfl⟩
  · obtain ⟨db₁, ds, r, hlogs, hr, hrows⟩ := hN h
    exact hlogs.asks (hl ▸ notMem_requests hp) hr hrows

/-- The other tables stay as they are. -/
theorem Tx.rows_other {r : t.Reply} (h : t.commit b x db = (.ok r, db'))
    (ht : ∀ q, t.request ≠ some (j, q)) : db'.rows j = db.rows j := by
  cases hj : j with
  | actions =>
    have hs := Tx.actionStep h
    subst hj
    have hupdate {p : ActionRow → Bool} {f : ActionRow → ActionRow}
        (hf : ∀ r, (f r).terms = r.terms) :
        (update p f db.actions).map ActionRow.terms = db.actions.map ActionRow.terms :=
      map_update hf db.actions
    change db'.actionTables.actions.map _ = _
    generalize db'.actionTables = s' at hs
    cases hs with
    | keep => rfl
    | request | exhaust | reserve => exact (ht _ rfl).elim
    | recover => exact hupdate (terms_interrupt _)
    | finish => exact hupdate (terms_finish _ _)
    | _ => exact hupdate (terms_setStatus _ _)
  | _ =>
    obtain ⟨db₁, ds, c, hw, hl, rfl⟩ := Tx.writes h
    rw [hl.rows]
    subst hj
    cases hw with
    | missionStatus a _ now | incidentStatus a _ now =>
      rw [StatusChange.carried]
      split_ifs <;> first
        | rfl
        | exact (ht _ rfl).elim
        | exact map_update (g := MissionRow.terms)
            (f := fun r => { r with status := a.status, updatedAt := now }) (fun _ => rfl) _
        | exact map_update (g := IncidentRow.terms)
            (f := fun r => { r with status := a.status, updatedAt := now }) (fun _ => rfl) _
    | lease _ _ h | lock _ _ _ _ h => cases h <;> first | rfl | exact (ht _ rfl).elim
    | _ => first | rfl | exact (ht _ rfl).elim

theorem Tx.asks {r : t.Reply} (h : t.commit b x db = (.ok r, db'))
    (ht : t.request = some (j, q)) : Asks db j q db' := by
  obtain ⟨c, hrun, rfl, -⟩ := Tx.commit_ok h
  cases t with
  | createMission a =>
    cases ht
    obtain ⟨-, ⟨-, hq⟩, hl⟩ := (createMission_spec a x ⟨db, 0⟩).ok hrun
    exact hl.asks (notMem_terms hq fun _ => rfl) rfl List.map_append
  | createIncident a =>
    cases ht
    obtain ⟨-, ⟨-, hq⟩, hl⟩ := (createIncident_spec a x ⟨db, 0⟩).ok hrun
    exact hl.asks (notMem_terms hq fun _ => rfl) rfl List.map_append
  | insertAction a =>
    cases ht
    obtain ⟨⟨-, hq⟩, ⟨-, -, hl⟩ | ⟨-, _, _, _, -, ⟨-, -, hl⟩ | ⟨-, -, -, hl⟩⟩⟩ :=
      (insertAction_spec a x ⟨db, 0⟩).ok hrun <;>
    exact hl.asks (notMem_terms hq fun _ => rfl) rfl List.map_append
  | setMissionStatus a =>
    cases ht
    obtain ⟨_, st, -, ⟨_, hp, -, -, rfl⟩ | ⟨hp, -, -, hl⟩⟩ :=
      (setEntityStatus_spec (missionEntity_lawful a) x ⟨db, 0⟩).ok hrun
    · exact .inl ⟨mem_requests hp, rfl⟩
    · refine hl.asks (notMem_requests hp) (r := a.row st (isoformat x.time)) rfl ?_
      rw [StatusChange.carried]
      split_ifs <;> rfl
  | setIncidentStatus a =>
    cases ht
    obtain ⟨_, st, -, ⟨_, hp, -, -, rfl⟩ | ⟨hp, -, -, hl⟩⟩ :=
      (setEntityStatus_spec (incidentEntity_lawful a) x ⟨db, 0⟩).ok hrun
    · exact .inl ⟨mem_requests hp, rfl⟩
    · refine hl.asks (notMem_requests hp) (r := a.row st (isoformat x.time)) rfl ?_
      rw [StatusChange.carried]
      split_ifs <;> rfl
  | updateMissionState a p =>
    cases ht
    obtain ⟨v, -, hk⟩ := (updateMissionState_spec b.rbac a p x ⟨db, 0⟩).ok hrun
    exact hk.asks rfl fun h => ⟨_, _, _, h.2.2, rfl, rfl⟩
  | createCheckpoint a =>
    cases ht
    obtain ⟨v, -, hk⟩ := (createCheckpoint_spec b.rbac a x ⟨db, 0⟩).ok hrun
    exact hk.asks rfl fun h => ⟨_, _, _, h.2, rfl, rfl⟩
  | addRecord a =>
    cases ht
    obtain ⟨v, -, -, hk⟩ := (addRecord_spec b.rbac a x ⟨db, 0⟩).ok hrun
    exact hk.asks rfl fun h => ⟨_, _, _, h.2, rfl, rfl⟩
  | claimNext a =>
    cases ht
    obtain ⟨_, _, hp, -, -, rfl⟩ | ⟨hp, ⟨-, -, rfl⟩ | ⟨v, w, _, _, -, -, hl⟩⟩ :=
      (claimNext_spec b.rbac a x ⟨db, 0⟩).ok hrun
    · exact .inl ⟨mem_requests hp, rfl⟩
    · exact .inr ⟨notMem_requests hp, _, rfl, rfl⟩
    · exact hl.asks (notMem_requests hp) rfl rfl
  | missionLease a =>
    cases ht
    obtain ⟨v, -, hk⟩ := (missionLease_spec b.rbac a x ⟨db, 0⟩).ok hrun
    refine hk.asks (x := x) rfl fun hz => ?_
    obtain ⟨_, _, _, v, h, _, _, _, hl⟩ := hz
    exact ⟨_, _, a.operationRow v, hl, rfl, by cases h <;> rfl⟩
  | resourceLock a =>
    cases ht
    obtain ⟨v, -, hk⟩ := (resourceLock_spec b.rbac a x ⟨db, 0⟩).ok hrun
    refine hk.asks (x := x) rfl fun hz => ?_
    obtain ⟨_, v, h, _, hl⟩ := hz
    exact ⟨_, _, a.operationRow v, hl, rfl, by cases h <;> rfl⟩
  | recordModelTrace a =>
    cases ht
    obtain ⟨v, -, hk⟩ := (recordModelTrace_spec b.rbac a x ⟨db, 0⟩).ok hrun
    exact hk.asks rfl fun h => ⟨_, _, _, h.2.2, rfl, rfl⟩
  | updateIncidentDetails a p =>
    cases ht
    obtain ⟨i, -, -, hk⟩ := (updateIncidentDetails_spec b.rbac a p x ⟨db, 0⟩).ok hrun
    exact hk.asks rfl fun h => ⟨_, _, _, h.2, rfl, rfl⟩
  | recordActionArtifacts a p =>
    cases ht
    obtain ⟨i, -, hk⟩ := (recordActionArtifacts_spec b.rbac a p x ⟨db, 0⟩).ok hrun
    exact hk.asks rfl fun h => ⟨_, _, _, h.2.2, rfl, rfl⟩
  | _ => cases ht

theorem Tx.rows_grow {r : t.Reply} (h : t.commit b x db = (.ok r, db')) (j : Journal) :
    db.rows j <+: db'.rows j := by
  by_cases ht : ∃ q, t.request = some (j, q)
  · obtain ⟨q, hq⟩ := ht
    rcases Tx.asks h hq with ⟨-, rfl⟩ | ⟨-, r, -, hrows⟩
    · exact List.prefix_rfl
    · exact ⟨[r], hrows.symm⟩
  · rw [Tx.rows_other h (not_exists.1 ht)]

end steps

/-! ## Runs -/

variable {ms : List (Moment (brokerSystem b))} {s s₀ : State (brokerSystem b)}

theorem rows_run (hr : Run s₀ ms s) (j : Journal) : s₀.store.rows j <+: s.store.rows j := by
  refine hr.store (K := fun db : Db => s₀.store.rows j <+: db.rows j) List.prefix_rfl
    fun o x db h => ?_
  rcases perform_cases (b := b) o x db with heq | ⟨t, r, -, hcommit⟩
  · rwa [heq]
  · exact h.trans (Tx.rows_grow hcommit j)

/-- No transaction removes a row of the tables or of the decisions and the budget, or rewrites more
of it than the status, the result and the time of the last write of an entity. -/
theorem rows_kept (hr : Run (freshState b) ms s) : ∀ m ∈ ms,
    (∀ j, m.before.store.rows j <+: s.store.rows j) ∧
      m.before.store.actionTables.Grows s.store.actionTables := by
  intro m hm
  refine ⟨fun j => ?_, grows_of_mem hr hm⟩
  obtain ⟨ms₁, ms₂, rfl, -, hstep⟩ := hr.of_mem hm
  obtain ⟨-, -, hrest⟩ := hr.around
  exact (rows_run (.step .start hstep) j).trans (rows_run hrest j)

theorem requests_nodup (hr : Run (freshState b) ms s) (j : Journal) :
    (s.store.requests j).Nodup := by
  refine hr.store (K := fun db : Db => (db.requests j).Nodup)
    (by cases j <;> exact List.nodup_nil) fun o x db h => ?_
  rcases perform_cases (b := b) o x db with heq | ⟨t, r, -, hcommit⟩
  · rwa [heq]
  by_cases ht : ∃ q, t.request = some (j, q)
  · obtain ⟨q, hq⟩ := ht
    rcases Tx.asks hcommit hq with ⟨-, heq⟩ | ⟨hnew, r, hrq, hrows⟩
    · rwa [heq]
    · rw [Db.requests, hrows, List.map_append, List.map_singleton, hrq]
      exact h.append (List.nodup_singleton q) (List.disjoint_singleton.2 hnew)
  · rwa [Db.requests, Tx.rows_other hcommit (not_exists.1 ht)]

/-- A request is carried out once: a table has no two rows of one request, a transaction that
commits has a row of its request from then on, and one whose request has a row changes nothing. -/
theorem requests_once (hr : Run (freshState b) ms s) (j : Journal) :
    (s.store.requests j).Nodup ∧ ∀ m ∈ ms, ∀ c t o q, m.Performs c (.tx t) o →
      t.request = some (j, q) → (∀ r, o = .ok r → q ∈ s.store.requests j) ∧
        (q ∈ m.before.store.requests j → m.after.store = m.before.store) := by
  refine ⟨requests_nodup hr j, ?_⟩
  rintro m hm c t o q ⟨-, x, -, -, -, -, hcommit⟩ ht
  obtain ⟨ms₁, ms₂, rfl, -⟩ := hr.of_mem hm
  obtain ⟨-, -, hrest⟩ := hr.around
  have hlater : q ∈ m.after.store.requests j → q ∈ s.store.requests j :=
    fun hq => ((rows_run hrest j).map j.table.request).subset hq
  cases o with
  | error e => exact ⟨fun _ h => (nomatch h), fun _ => Tx.commit_error hcommit⟩
  | ok r =>
    rcases Tx.asks hcommit ht with ⟨hq, heq⟩ | ⟨hnew, r, hrq, hrows⟩
    · exact ⟨fun _ _ => hlater (heq ▸ hq), fun _ => heq⟩
    · refine ⟨fun _ _ => hlater ?_, fun hq => absurd hq hnew⟩
      rw [Db.requests, hrows]
      simp [hrq]

end OpsControlPlane

namespace OpsControlPlane.Sample

open Calls

/-- Alice sets the status of a mission, and does so once more under the same request. -/
theorem replayed_day : ∃ s ∈ reaches (opening ++ setOpen 1 110 200 ++ (setOpen 2 120 300).take 2),
    ∃ s' ∈ s.step (.act 2 (choice 120 310)),
      s.store.requests .missionStatusChanges = [uuid 2] ∧
      s'.store.requests .missions = [uuid 1] ∧ ∃ p ∈ outcome s (.act 2 (choice 120 310)),
        p.2 = true ∧ p.1.request = some (.missionStatusChanges, uuid 2) := by
  decide +kernel

theorem rows_kept_sample : ∃ (ms : List (Moment (brokerSystem broker)))
    (s : State (brokerSystem broker)), Run (freshState broker) ms s ∧
    s.store.requests .missions ≠ [] ∧
    ∀ m ∈ ms, m.before.store.rows .missions <+: s.store.rows .missions := by
  obtain ⟨ms, s, s', hr, -, hone, -⟩ := Run.of_exec_step replayed_day
  exact ⟨_, s', hr, hone ▸ List.cons_ne_nil _ _, fun m hm => (rows_kept hr m hm).1 .missions⟩

/-- The second one commits, and changes nothing. -/
theorem requests_once_sample : ∃ (ms : List (Moment (brokerSystem broker)))
    (s : State (brokerSystem broker)), Run (freshState broker) ms s ∧
    s.store.requests .missionStatusChanges = [uuid 2] ∧ ∃ m ∈ ms, ∃ c t r,
      m.Performs c (.tx t) (.ok r) ∧ t.request = some (.missionStatusChanges, uuid 2) ∧
        m.before.store.requests .missionStatusChanges = [uuid 2] ∧
          m.after.store = m.before.store := by
  obtain ⟨s, hs, s', hs', hq, -, p, hp, hok, ht⟩ := replayed_day
  obtain ⟨ms, hr, -⟩ := Run.of_exec hs
  obtain ⟨c, o, hperf, ho⟩ := performs_of_outcome hs' hp
  have hm := List.mem_append_right ms (List.mem_singleton_self
    (⟨s, .act 2 (choice 120 310), s'⟩ : Moment (brokerSystem broker)))
  have hsame : s'.store = s.store :=
    ((requests_once (hr.step hs') _).2 _ hm c p.1 o _ hperf ht).2 (hq ▸ List.mem_singleton_self _)
  cases o with
  | error e => cases (show false = true from ho.trans hok)
  | ok r => exact ⟨_, s', hr.step hs', hsame ▸ hq, _, hm, c, p.1, r, hperf, ht, hq, hsame⟩

end OpsControlPlane.Sample
