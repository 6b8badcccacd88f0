import OpsControlPlane.Broker.Service

/-!
# Opening a database of an earlier version

`_initialize` and `_migrate_v1_to_v2` over a file. The missions and incidents of a file keep
the text of their status, as older versions allow other texts. A table that the file does
not have is empty.
-/

namespace OpsControlPlane

open Transaction

set_option linter.unusedSectionVars false

variable [Platform]

/-! ## Files -/

structure StoredMission where
  (id requestId projectId title status createdBy createdAt updatedAt : String)
deriving DecidableEq

structure StoredIncident where
  (id requestId projectId title severity status createdBy createdAt updatedAt : String)
deriving DecidableEq

structure LinkedTables where
  actions : List ActionRow := []
  approvals : List ApprovalRow := []
  budgetUsage : List BudgetRow := []
  missionStatusChanges : List (StatusChangeRow MissionStatus) := []
  incidentStatusChanges : List (StatusChangeRow IncidentStatus) := []
  missionRuntime : List RuntimeRow := []
  missionUpdates : List UpdateRow := []
  missionCheckpoints : List CheckpointRow := []
  missionRecords : List RecordRow := []
  resourceLocks : List LockRow := []
  resourceLockOperations : List LockOperationRow := []
  missionClaimOperations : List ClaimOperationRow := []
  modelTraces : List TraceRow := []
  actionArtifacts : List ArtifactsRow := []
  actionArtifactUpdates : List UpdateRow := []
  incidentDetails : List IncidentDetailsRow := []
  incidentUpdates : List UpdateRow := []
  events : List EventRow := []
  auditHead : Option AuditHead := none

structure DbFile where
  /-- `PRAGMA user_version`. -/
  version : ℤ
  userTables : Bool
  missions : List StoredMission
  incidents : List StoredIncident
  linked : LinkedTables

def schemaVersion : ℤ :=
  3

/-! ## Constraints -/

/-- The check of `missions.status`. -/
def missionStatuses : List String :=
  ["open", "paused", "completed"]

/-- The check of `incidents.status`. -/
def incidentStatuses : List String :=
  ["open", "monitoring", "resolved"]

/-- The check of `incidents.severity`. -/
def severities : List String :=
  ["info", "warning", "critical"]

/-- The rows satisfy the constraints of the table of missions. -/
def missionsValid (t : List StoredMission) : Prop :=
  (∀ m ∈ t, m.status ∈ missionStatuses) ∧ (t.map StoredMission.id).Nodup ∧
    (t.map StoredMission.requestId).Nodup

/-- The rows satisfy the constraints of the table of incidents. -/
def incidentsValid (t : List StoredIncident) : Prop :=
  (∀ i ∈ t, i.severity ∈ severities ∧ i.status ∈ incidentStatuses) ∧
    (t.map StoredIncident.id).Nodup ∧ (t.map StoredIncident.requestId).Nodup

instance (t : List StoredMission) : Decidable (missionsValid t) :=
  inferInstanceAs (Decidable (_ ∧ _))

instance (t : List StoredIncident) : Decidable (incidentsValid t) :=
  inferInstanceAs (Decidable (_ ∧ _))

/-- The foreign keys of the tables: the keys that refer, and those that they refer to. -/
def DbFile.references (f : DbFile) : List (List String × List String) :=
  let missions := f.missions.map StoredMission.id
  let incidents := f.incidents.map StoredIncident.id
  let actions := f.linked.actions.map ActionRow.id
  let traces := f.linked.modelTraces.map TraceRow.id
  [(f.linked.actions.filterMap ActionRow.missionId, missions),
    (f.linked.actions.filterMap ActionRow.incidentId, incidents),
    (f.linked.approvals.map ApprovalRow.actionId, actions),
    (f.linked.budgetUsage.map BudgetRow.actionId, actions),
    (f.linked.missionStatusChanges.map StatusChangeRow.entityId, missions),
    (f.linked.incidentStatusChanges.map StatusChangeRow.entityId, incidents),
    (f.linked.missionRuntime.map RuntimeRow.missionId, missions),
    (f.linked.missionUpdates.map UpdateRow.entityId, missions),
    (f.linked.missionCheckpoints.map CheckpointRow.missionId, missions),
    (f.linked.missionRecords.map RecordRow.missionId, missions),
    (f.linked.missionRecords.filterMap RecordRow.incidentId, incidents),
    (f.linked.resourceLocks.map LockRow.missionId, missions),
    (f.linked.resourceLockOperations.map LockOperationRow.missionId, missions),
    (f.linked.missionClaimOperations.filterMap ClaimOperationRow.missionId, missions),
    (f.linked.modelTraces.map TraceRow.missionId, missions),
    (f.linked.modelTraces.filterMap TraceRow.parentTraceId, traces),
    (f.linked.actionArtifacts.map ArtifactsRow.actionId, actions),
    (f.linked.actionArtifactUpdates.map UpdateRow.entityId, actions),
    (f.linked.incidentDetails.map IncidentDetailsRow.incidentId, incidents),
    (f.linked.incidentUpdates.map UpdateRow.entityId, incidents)]

/-- `PRAGMA foreign_key_check` finds nothing. -/
def DbFile.keysHold (f : DbFile) : Bool :=
  f.references.all fun r => r.1.all fun key => key ∈ r.2

/-! ## Opening -/

/-- `CASE status WHEN 'closed' THEN 'completed' ELSE status END`. -/
def renamed (m : StoredMission) : StoredMission :=
  { m with status := if m.status = "closed" then "completed" else m.status }

/-- `_migrate_v1_to_v2`. A failure rolls the file back. -/
def migrateV1 (f : DbFile) : Except PyError DbFile :=
  let missions := f.missions.map renamed
  let g := { f with version := 2, missions := missions }
  if ¬ (missionsValid missions ∧ incidentsValid f.incidents) then .error .integrity
  else if g.keysHold = false then
    .error (.runtime "foreign key validation failed during schema migration")
  else .ok g

/-- `INSERT OR IGNORE ... SELECT id, updated_at`. -/
def backfill {R : Type} (key : R → String) (new : String → String → R)
    (entities : List (String × String)) (t : List R) : List R :=
  entities.foldl (fun t e => if (row key e.1 t).isSome then t else t ++ [new e.1 e.2]) t

/-- `executescript(_SCHEMA)` and the version that is written after it. -/
def applySchema (f : DbFile) : DbFile :=
  { f with
    version := schemaVersion
    userTables := true
    linked := { f.linked with
      missionRuntime := backfill RuntimeRow.missionId defaultRuntime
        (f.missions.map fun m => (m.id, m.updatedAt)) f.linked.missionRuntime
      incidentDetails := backfill IncidentDetailsRow.incidentId defaultDetails
        (f.incidents.map fun i => (i.id, i.updatedAt)) f.linked.incidentDetails
      auditHead := f.linked.auditHead.or (some ⟨0, genesisHash⟩) } }

def initializeStore (f : DbFile) : Except PyError DbFile :=
  if f.version ≠ 0 ∧ f.version ≠ 1 ∧ f.version ≠ 2 ∧ f.version ≠ schemaVersion then
    .error (.runtime ("unsupported database schema version: " ++ toString f.version))
  else if f.version = 0 ∧ f.userTables = true then
    .error (.runtime "refusing to upgrade an unversioned non-empty database")
  else if f.version = 1 then (migrateV1 f).map applySchema
  else .ok (applySchema f)

/-! ## Backfilling -/

section backfill

variable {R : Type} {key : R → String} {new : String → String → R}
  {entities : List (String × String)} {t : List R} {k : String}

theorem backfill_cons (e : String × String) : backfill key new (e :: entities) t =
    backfill key new entities
      (if (row key e.1 t).isSome then t else t ++ [new e.1 e.2]) :=
  rfl

theorem row_backfill_of_some {r : R} (h : row key k t = some r) :
    row key k (backfill key new entities t) = some r := by
  induction entities generalizing t with
  | nil => exact h
  | cons e entities ih =>
    rw [backfill_cons]
    refine ih ?_
    split_ifs
    · exact h
    · exact row_append_of_some h _

theorem row_backfill_of_none (hkey : ∀ id at', key (new id at') = id) (h : row key k t = none) :
    row key k (backfill key new entities t) =
      (entities.find? fun e => e.1 = k).map fun e => new e.1 e.2 := by
  induction entities generalizing t with
  | nil => exact h
  | cons e entities ih =>
    obtain ⟨id, at'⟩ := e
    rw [backfill_cons, List.find?_cons]
    by_cases hid : id = k
    · subst hid
      rw [h, if_neg (by simp)]
      have hnew : row key id (t ++ [new id at']) = some (new id at') := by
        rw [row_append, h, row_cons, if_pos (hkey id at'), Option.none_or]
      rw [row_backfill_of_some hnew]
      simp
    · simp only [hid, decide_false]
      refine ih ?_
      split_ifs
      · exact h
      · rw [row_append, h, row_cons, if_neg (by rw [hkey]; exact hid)]
        rfl

theorem backfill_eq_self (h : ∀ e ∈ entities, (row key e.1 t).isSome = true) :
    backfill key new entities t = t := by
  induction entities with
  | nil => rfl
  | cons e entities ih =>
    rw [backfill_cons, if_pos (h e List.mem_cons_self)]
    exact ih fun e he => h e (List.mem_cons_of_mem _ he)

theorem backfill_total (hkey : ∀ id at', key (new id at') = id) {e : String × String}
    (he : e ∈ entities) : (row key e.1 (backfill key new entities t)).isSome = true := by
  cases h : row key e.1 t with
  | some r => rw [row_backfill_of_some h, Option.isSome_some]
  | none =>
    rw [row_backfill_of_none hkey h, Option.isSome_map, List.find?_isSome]
    exact ⟨e, he, by simp⟩

end backfill

theorem applySchema_applySchema (f : DbFile) : applySchema (applySchema f) = applySchema f := by
  have hruntime : backfill RuntimeRow.missionId defaultRuntime
      (f.missions.map fun m => (m.id, m.updatedAt)) (applySchema f).linked.missionRuntime =
      (applySchema f).linked.missionRuntime :=
    backfill_eq_self fun e he => backfill_total (fun _ _ => rfl) he
  have hdetails : backfill IncidentDetailsRow.incidentId defaultDetails
      (f.incidents.map fun i => (i.id, i.updatedAt)) (applySchema f).linked.incidentDetails =
      (applySchema f).linked.incidentDetails :=
    backfill_eq_self fun e he => backfill_total (fun _ _ => rfl) he
  have hhead : (applySchema f).linked.auditHead.or (some ⟨0, genesisHash⟩) =
      (applySchema f).linked.auditHead := by
    unfold applySchema
    cases f.linked.auditHead <;> rfl
  have hagain : applySchema (applySchema f) = { applySchema f with
      linked := { (applySchema f).linked with
        missionRuntime := backfill RuntimeRow.missionId defaultRuntime
          (f.missions.map fun m => (m.id, m.updatedAt)) (applySchema f).linked.missionRuntime
        incidentDetails := backfill IncidentDetailsRow.incidentId defaultDetails
          (f.incidents.map fun i => (i.id, i.updatedAt)) (applySchema f).linked.incidentDetails
        auditHead := (applySchema f).linked.auditHead.or (some ⟨0, genesisHash⟩) } } := rfl
  rw [hagain, hruntime, hdetails, hhead]

end OpsControlPlane
