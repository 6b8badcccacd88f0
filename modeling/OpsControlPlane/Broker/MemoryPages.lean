import OpsControlPlane.Broker.Api

/-!
# The pages of the memory collector

`list_memory_missions` and `list_memory_history`: the missions and the records of a project in the
order of their row ids, a page of them after a cursor.

SQLite gives a row its row id, and the rows here do not have it. `RowIds` says what they are, by the
keys of the rows.
-/

set_option linter.unusedSectionVars false

namespace OpsControlPlane

open JsonText Transaction

variable [Platform]

/-- `rowid` of `missions` and of `mission_records`. -/
structure RowIds where
  (mission record : String → ℕ)

def authorizedProjectFilter (b : Broker) (actorId projectId : String) :
    Except PyError (List String) := do
  validateActor actorId
  if isProjectId projectId then do
    b.rbac.requireProject actorId projectId
    return [projectId]
  else .error (.invalid "invalid_request" "project_id is malformed")

def validateCursor (after : ℤ) (message : String) : Except PyError ℕ :=
  if 0 ≤ after ∧ after < 2 ^ 63 then .ok after.toNat
  else .error (.invalid "invalid_request" message)

/-- `ORDER BY rowid LIMIT ?`, of the rows after a cursor. -/
def rowsAfter {α : Type} (rowid : α → ℕ) (after limit : ℕ) (rows : List α) : List α :=
  ((rows.filter fun r => after < rowid r).insertionSort fun r s => rowid r ≤ rowid s).take limit

def nextCursor {α : Type} (rowid : α → ℕ) (after : ℕ) (rows : List α) : ℕ :=
  (rows.getLast?.map rowid).getD after

def Db.missionsOf (projectId : String) (db : Db) : List MissionRow :=
  db.missions.filter fun m => m.projectId = projectId

def Db.recordsOf (projectId : String) (db : Db) : List RecordRow :=
  db.missionRecords.filter fun r =>
    (row MissionRow.id r.missionId db.missions).any fun m => m.projectId = projectId

def listMemoryMissions (b : Broker) (ids : RowIds) (actorId projectId : String)
    (after limit : ℤ) : Method Value := do
  let limit ← .ofExcept (validateLimit limit)
  let projects ← .ofExcept (authorizedProjectFilter b actorId projectId)
  let after ← .ofExcept (validateCursor after "invalid mission cursor")
  if projects = [] then return .obj [("missions", .arr []), ("next_cursor", .int after)]
  else do
    let db ← snapshot
    let rows := rowsAfter (fun m => ids.mission m.id) after limit (db.missionsOf projectId)
    return .obj [("missions", .arr (rows.map missionPublic)),
      ("next_cursor", .int (nextCursor (fun m => ids.mission m.id) after rows))]

/-- `{**self.mission_control._record_public(row), "project_id": ...}`. -/
def historyItem (projectId : String) (r : RecordRow) : Except PyError Value := do
  match ← recordPublic r false with
  | .obj kvs => return .obj (setKey "project_id" (.str projectId) kvs)
  | _ => .error .typeError

def listMemoryHistory (b : Broker) (ids : RowIds) (actorId projectId : String)
    (after limit : ℤ) : Method Value := do
  let limit ← .ofExcept (validateLimit limit)
  let projects ← .ofExcept (authorizedProjectFilter b actorId projectId)
  let after ← .ofExcept (validateCursor after "invalid history cursor")
  if projects = [] then return .obj [("records", .arr []), ("next_cursor", .int after)]
  else do
    let db ← snapshot
    let rows := rowsAfter (fun r => ids.record r.id) after limit (db.recordsOf projectId)
    let items ← .ofExcept (rows.mapM (historyItem projectId))
    return .obj [("records", .arr items),
      ("next_cursor", .int (nextCursor (fun r => ids.record r.id) after rows))]

end OpsControlPlane
