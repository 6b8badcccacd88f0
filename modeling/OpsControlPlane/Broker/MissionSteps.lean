import OpsControlPlane.Broker.Trails

/-!
# What the transactions do to missions

`MissionStep` lists what a committed transaction can do to the missions, their queue, the
locks they hold and their model traces, with the conditions it has checked.
`Tx.missionStep` says that there is nothing else. `MissionsKeyed` is what every commit keeps
of the keys of these tables: a mission has one row and one row of the queue.
-/

set_option linter.unusedSectionVars false

namespace OpsControlPlane

open JsonText Calendar Transaction Calls

variable [Platform]

structure MissionTables where
  missions : List MissionRow
  runtime : List RuntimeRow
  locks : List LockRow
  traces : List TraceRow

def Db.missionTables (db : Db) : MissionTables :=
  ⟨db.missions, db.missionRuntime, db.resourceLocks, db.modelTraces⟩

def MissionTables.updateRuntime (s : MissionTables) (missionId : String)
    (f : RuntimeRow → RuntimeRow) : MissionTables :=
  { s with runtime := update (fun r => r.missionId = missionId) f s.runtime }

def MissionRow.setStatus (status : MissionStatus) (now : String) (r : MissionRow) : MissionRow :=
  { r with status := status, updatedAt := now }

structure MissionTables.Has (s : MissionTables) (id : String) (v : MissionView) : Prop where
  mission : row MissionRow.id id s.missions = some v.mission
  runtime : row RuntimeRow.missionId id s.runtime = some v.runtime

/-- A transaction that can commit without a change of the mission tables. -/
def Tx.KeepsMissions : Tx → Prop
  | createMission _ | recoverAfterRestart _ _ => False
  | _ => True

inductive MissionStep (s : MissionTables) : Tx → MissionTables → Prop
  | keep (t : Tx) (h : t.KeepsMissions) : MissionStep s t s
  | create (a : NewMission) (hid : row MissionRow.id a.id s.missions = none) :
      MissionStep s (.createMission a)
        { s with
          missions := s.missions ++ [a.row]
          runtime := insertRuntime a.row s.runtime }
  | status (a : StatusChange MissionStatus) (m : MissionRow) (now : String)
      (hm : row MissionRow.id a.entityId s.missions = some m) (hne : m.status ≠ a.status)
      (hmove : a.status ∈ m.status.transitions) :
      MissionStep s (.setMissionStatus a)
        { s with
          missions := update (fun r => r.id = a.entityId) (MissionRow.setStatus a.status now)
            s.missions
          runtime := update (fun r => r.missionId = a.entityId)
            (fun r => r.release a.status.queueState now) s.runtime
          locks := if a.status = .paused ∨ a.status = .completed then
            s.locks.filter fun l => l.missionId ≠ a.entityId else s.locks }
  | context (a : UpdateArgs) (p : MissionPatch) :
      MissionStep s (.updateMissionState a p)
        (s.updateRuntime a.entityId (p.apply (isoformat a.now)))
  | checkpoint (a : NewCheckpoint) :
      MissionStep s (.createCheckpoint a) (s.updateRuntime a.missionId a.apply)
  | claim (a : ClaimArgs) (v : MissionView) (hv : s.Has v.mission.id v)
      (hc : a.candidate v = true) :
      MissionStep s (.claimNext a) (s.updateRuntime v.mission.id a.claim)
  | heartbeat (a : LeaseArgs) (v : MissionView) (leaseUntil : DateTime)
      (hv : s.Has a.missionId v)
      (hheld : v.runtime.queueState = .claimed ∧ v.runtime.claimedBy = some a.actorId)
      (ho : a.operation = .heartbeat)
      (hl : a.now.addSeconds a.leaseSeconds = some leaseUntil) :
      MissionStep s (.missionLease a) (s.updateRuntime a.missionId (a.beat leaseUntil))
  | release (a : LeaseArgs) (v : MissionView) (hv : s.Has a.missionId v)
      (hheld : v.runtime.queueState = .claimed ∧ v.runtime.claimedBy = some a.actorId)
      (ho : a.operation = .release) :
      MissionStep s (.missionLease a) (s.updateRuntime a.missionId fun r =>
        r.release (if v.mission.status = .completed then .done else .queued) (isoformat a.now))
  /-- A lock of a resource that is free, the caller's own, or past its lease. -/
  | acquire (a : LockArgs) (v : MissionView) (hv : s.Has a.missionId v)
      (ho : a.operation = .acquire)
      (hfree : ∀ l, row LockRow.resourceId a.resourceId s.locks = some l →
        a.mine l ∨ ∃ leaseUntil, parseTimestamp l.leaseUntil = some leaseUntil ∧
          leaseUntil ≤ a.now) :
      MissionStep s (.resourceLock a)
        { s with
          locks := upsertLock (a.lockRow v.mission.projectId
            (a.token (row LockRow.resourceId a.resourceId s.locks))) s.locks }
  | renew (a : LockArgs) (l : LockRow) (ho : a.operation = .renew)
      (hl : row LockRow.resourceId a.resourceId s.locks = some l) (hm : a.mine l) :
      MissionStep s (.resourceLock a)
        { s with locks := update (fun r => r.resourceId = a.resourceId) a.renew s.locks }
  | unlock (a : LockArgs) (l : LockRow) (ho : a.operation = .release)
      (hl : row LockRow.resourceId a.resourceId s.locks = some l) (hm : a.mine l) :
      MissionStep s (.resourceLock a)
        { s with locks := s.locks.filter fun r => r.resourceId ≠ a.resourceId }
  | trace (a : NewTrace) (v : MissionView) (hv : s.Has a.missionId v)
      (hiter : v.runtime.iterationCount < v.runtime.maxIterations)
      (hcalls : a.remote → v.runtime.apiCallCount < v.runtime.maxApiCalls) :
      MissionStep s (.recordModelTrace a)
        { s.updateRuntime a.missionId a.apply with traces := s.traces ++ [a.row] }
  | recover (actorId : String) (now : DateTime) (claims locks : List String)
      (hclaims : ∀ id, id ∈ claims ↔ ∃ r ∈ s.runtime, (r.queueState = .claimed ∧
        ∃ l ∈ r.leaseUntil, l ≤ isoformat now) ∧ r.missionId = id)
      (hlocks : ∀ id, id ∈ locks ↔ ∃ l ∈ s.locks, l.leaseUntil ≤ isoformat now ∧
        l.resourceId = id) :
      MissionStep s (.recoverAfterRestart actorId now)
        { s with
          runtime := update (fun r => r.missionId ∈ claims)
            (fun r => r.release .queued (isoformat now)) s.runtime
          locks := s.locks.filter fun r => r.resourceId ∉ locks }

variable {x : TxEnv}

theorem Logs.missionTables {c c' : Conn} {ds : List AuditDraft} (h : Logs x c ds c') :
    c'.db.missionTables = c.db.missionTables := by
  rw [h.data]
  rfl

variable {db : Db} {v : MissionView}

theorem missionView_has {id : String} (h : missionView id db = some v) :
    db.missionTables.Has id v := by
  obtain ⟨m, hm, h⟩ := Option.bind_eq_some_iff.1 h
  obtain ⟨r, hr, rfl⟩ := Option.map_eq_some_iff.1 h
  exact ⟨hm, hr⟩

theorem nextCandidate_some {a : ClaimArgs} (h : nextCandidate a db = some v) :
    v ∈ missionViews db ∧ a.candidate v = true := by
  have hmem := List.mem_of_mem_head? h
  rwa [List.mem_insertionSort, List.mem_filter] at hmem

theorem mem_expiredClaims {now id : String} : id ∈ expiredClaims now db ↔
    ∃ r ∈ db.missionRuntime, (r.queueState = .claimed ∧ ∃ l ∈ r.leaseUntil, l ≤ now) ∧
      r.missionId = id := by
  simp [expiredClaims, sortedTexts, and_assoc]

theorem mem_expiredLocks {now id : String} : id ∈ expiredLocks now db ↔
    ∃ l ∈ db.resourceLocks, l.leaseUntil ≤ now ∧ l.resourceId = id := by
  simp [expiredLocks, sortedTexts, and_assoc]

theorem missionViews_has (hn : (db.missions.map MissionRow.id).Nodup) (h : v ∈ missionViews db) :
    db.missionTables.Has v.mission.id v := by
  obtain ⟨m, hm, h⟩ := List.mem_filterMap.1 h
  obtain ⟨r, hr, rfl⟩ := Option.map_eq_some_iff.1 h
  exact ⟨row_of_mem hn hm, hr⟩

def Tx.LeavesMissions : Tx → Prop
  | createMission _ | setMissionStatus _ | updateMissionState _ _ | createCheckpoint _
  | claimNext _ | missionLease _ | resourceLock _ | recordModelTrace _
  | recoverAfterRestart _ _ => False
  | _ => True

variable {db' : Db}

theorem Tx.Writes.missionTables {t : Tx} (h : t.Writes db db') (ht : t.LeavesMissions) :
    db'.missionTables = db.missionTables := by
  cases h with
  | incidentStatus =>
    simp only [StatusChange.carried]
    split_ifs <;> rfl
  | mission | missionStatus | context | checkpoint | noClaim | claim | lease | lock | trace
  | recover => exact ht.elim
  | _ => rfl

theorem StatusChange.missionStep {a : StatusChange MissionStatus} {project : String}
    {st : MissionStatus} (hfind : missionEntity.find db a.entityId = some (project, st))
    (hmove : st = a.status ∨ a.status ∈ missionEntity.transitions st) (now : String) :
    MissionStep db.missionTables (.setMissionStatus a)
      (a.carried missionEntity (followedMission a.entityId a.status) st now db).missionTables := by
  by_cases hne : st = a.status
  · rw [StatusChange.carried, if_neg (not_not.2 hne)]
    exact .keep _ trivial
  · obtain ⟨m, hm, hmst⟩ := Option.map_eq_some_iff.1 hfind
    obtain rfl : m.status = st := congrArg Prod.snd hmst
    rw [StatusChange.carried, if_pos hne]
    exact .status a m now hm hne (hmove.resolve_left hne)

theorem Leases.missionStep {a : LeaseArgs} (h : Leases a db db')
    (hv : db.missionTables.Has a.missionId v)
    (hheld : v.runtime.queueState = .claimed ∧ v.runtime.claimedBy = some a.actorId) :
    MissionStep db.missionTables (.missionLease a) db'.missionTables := by
  cases h with
  | heartbeat leaseUntil ho hle => exact .heartbeat a v leaseUntil hv hheld ho hle
  | release ho =>
    have hm : row MissionRow.id a.missionId db.missions = some v.mission := hv.mission
    have hstate : a.releasedState db = if v.mission.status = .completed then .done
        else .queued := by
      simp [LeaseArgs.releasedState, hm]
    have hstep := MissionStep.release (s := db.missionTables) a v hv hheld ho
    rw [← hstate] at hstep
    exact hstep

theorem LockEffect.missionStep {a : LockArgs} {r : Value}
    (h : LockEffect a v.mission.projectId db db' r) (hv : db.missionTables.Has a.missionId v) :
    MissionStep db.missionTables (.resourceLock a) db'.missionTables := by
  cases h with
  | acquire ho free => exact .acquire a v hv ho free
  | renew l ho held mine => exact .renew a l ho held mine
  | release l ho held mine => exact .unlock a l ho held mine

/-- A committed transaction does to the mission tables what `MissionStep` says. -/
theorem Tx.missionStep {b : Broker} {t : Tx} {r : t.Reply}
    (hn : (db.missions.map MissionRow.id).Nodup) (h : t.commit b x db = (.ok r, db')) :
    MissionStep db.missionTables t db'.missionTables := by
  have leaves : t.LeavesMissions → t.KeepsMissions →
      MissionStep db.missionTables t db'.missionTables := by
    intro ht hkeeps
    obtain ⟨db₁, ds, c, hw, hl, rfl⟩ := Tx.writes h
    rw [hl.missionTables, hw.missionTables ht]
    exact .keep t hkeeps
  obtain ⟨c, hrun, rfl, -⟩ := Tx.commit_ok h
  cases t with
  | createMission a =>
    obtain ⟨-, hid, hl⟩ := (createMission_spec a x ⟨db, 0⟩).ok hrun
    rw [hl.missionTables]
    exact .create a hid.1
  | setMissionStatus a =>
    obtain ⟨project, st, hfind, ⟨_, -, -, -, rfl⟩ | ⟨-, hmove, -, hl⟩⟩ :=
      (setEntityStatus_spec (missionEntity_lawful a) x ⟨db, 0⟩).ok hrun
    · exact .keep _ trivial
    · rw [hl.missionTables]
      exact StatusChange.missionStep hfind hmove _
  | updateMissionState a p =>
    obtain ⟨v, -, ⟨_, -, -, -, rfl⟩ | ⟨-, -, -, hl⟩⟩ :=
      (updateMissionState_spec b.rbac a p x ⟨db, 0⟩).ok hrun
    · exact .keep _ trivial
    · rw [hl.missionTables]
      exact .context a p
  | createCheckpoint a =>
    obtain ⟨v, -, ⟨_, -, -, -, rfl⟩ | ⟨-, -, hl⟩⟩ :=
      (createCheckpoint_spec b.rbac a x ⟨db, 0⟩).ok hrun
    · exact .keep _ trivial
    · rw [hl.missionTables]
      exact .checkpoint a
  | claimNext a =>
    rcases (claimNext_spec b.rbac a x ⟨db, 0⟩).ok hrun with ⟨_, _, -, -, -, rfl⟩ |
      ⟨-, ⟨-, -, rfl⟩ | ⟨v, w, _, _, hclaims, -, hl⟩⟩
    · exact .keep _ trivial
    · exact .keep _ trivial
    · obtain ⟨hmem, hc⟩ := nextCandidate_some hclaims.next
      rw [hl.missionTables]
      exact .claim a v (missionViews_has hn hmem) hc
  | missionLease a =>
    obtain ⟨v, hv, ⟨_, -, -, -, rfl⟩ | ⟨-, hheld, db₁, w, resultJson, hlease, -, -, -, hl⟩⟩ :=
      (missionLease_spec b.rbac a x ⟨db, 0⟩).ok hrun
    · exact .keep _ trivial
    · rw [hl.missionTables]
      exact hlease.missionStep (missionView_has hv.1) hheld
  | resourceLock a =>
    obtain ⟨v, hv, ⟨_, -, -, -, rfl⟩ | ⟨-, db₁, resultJson, heff, -, hl⟩⟩ :=
      (resourceLock_spec b.rbac a x ⟨db, 0⟩).ok hrun
    · exact .keep _ trivial
    · rw [hl.missionTables]
      exact heff.missionStep (missionView_has hv.1)
  | recordModelTrace a =>
    obtain ⟨v, hv, ⟨_, -, -, -, rfl⟩ | ⟨-, -, hguard, hl⟩⟩ :=
      (recordModelTrace_spec b.rbac a x ⟨db, 0⟩).ok hrun
    · exact .keep _ trivial
    · rw [hl.missionTables]
      exact .trace a v (missionView_has hv.1) hguard.1 hguard.2
  | recoverAfterRestart actorId now =>
    obtain ⟨-, hl⟩ := (recoverAfterRestart_spec actorId now x ⟨db, 0⟩).ok hrun
    rw [hl.missionTables]
    exact .recover actorId now _ _ (fun id => mem_expiredClaims) fun id => mem_expiredLocks
  | _ => exact leaves trivial trivial

end OpsControlPlane
