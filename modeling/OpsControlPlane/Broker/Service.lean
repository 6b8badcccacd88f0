import OpsControlPlane.Broker.Runbooks
import OpsControlPlane.Broker.AuditLog

/-!
# The transactions of the service

What the methods of `service.py` do inside a transaction: the creation of missions,
incidents and actions, the changes of their status, the budget of class B, the decision of
an approval, and the start and the end of an execution. The values a method computes
before its transaction are the arguments.

Each transaction is followed by its rule, which says what a commit of it writes and which
events it logs; later modules use the rules and do not unfold the transactions.
-/

set_option linter.unusedSectionVars false

namespace OpsControlPlane

open Text JsonText Calendar Transaction

variable [Platform]

/-! ## Events in a row -/

def appendEvents : List AuditDraft → BrokerTxn Unit
  | [] => pure ()
  | d :: ds => do
    let _ ← appendEvent d
    appendEvents ds

theorem wp_appendEvents {Q : Unit → Conn → Prop} {E : PyError → Prop} {x : TxEnv} {c : Conn}
    {ds : List AuditDraft} (hQ : ∀ c', Logs x c ds c' → Q () c') (hE : ∀ e, E e) :
    (appendEvents ds).wp x c Q E := by
  induction ds generalizing c with
  | nil => exact hQ c (.nil c)
  | cons d ds ih =>
    rw [appendEvents, Txn.wp_bind]
    exact wp_appendEvent (fun head hh => ih fun c' h => hQ c' (.cons hh h)) hE

/-! ## Denials -/

/-- The arguments of `_audit_denial`, and the time at which it is called. -/
structure Denial where
  (actorId eventType entityType entityId code requestId : String)
  now : DateTime

def Denial.draft (d : Denial) : AuditDraft where
  occurredAt := isoformat d.now
  eventType := d.eventType
  actorId := d.actorId
  entityType := d.entityType
  entityId := d.entityId
  payload := [("decision", .str "deny"), ("code", .str d.code), ("request_id", .str d.requestId)]

def auditDenial (d : Denial) : BrokerTxn Unit := do
  let _ ← appendEvent d.draft

theorem auditDenial_spec (d : Denial) (x : TxEnv) (c : Conn) :
    (auditDenial d).wp x c (fun _ c' => Logs x c [d.draft] c') fun _ => True := by
  simp only [auditDenial, Txn.wp_bind]
  exact wp_appendEvent (fun head hh => .single _ hh) fun _ => trivial

/-! ## Creation -/

structure NewMission where
  (id requestId projectId title actorId : String)
  now : DateTime

def NewMission.row (a : NewMission) : MissionRow where
  id := a.id
  requestId := a.requestId
  projectId := a.projectId
  title := a.title
  status := .opened
  createdBy := a.actorId
  createdAt := isoformat a.now
  updatedAt := isoformat a.now

def NewMission.draft (a : NewMission) : AuditDraft where
  occurredAt := isoformat a.now
  eventType := "mission.created"
  actorId := a.actorId
  entityType := "mission"
  entityId := a.id
  payload := [("request_id", .str a.requestId), ("project_id", .str a.projectId)]

def defaultRuntime (missionId updatedAt : String) : RuntimeRow where
  missionId := missionId
  environment := "unknown"
  priority := 50
  queueState := .queued
  objective := ""
  summary := ""
  impact := ""
  risk := ""
  planJson := "[]"
  currentStep := ""
  remainingStepsJson := "[]"
  resourcesJson := "[]"
  filesJson := "[]"
  nextAction := ""
  currentModelRole := none
  currentModel := none
  iterationCount := 0
  maxIterations := 12
  apiCallCount := 0
  maxApiCalls := 8
  deadline := none
  claimedBy := none
  claimedAt := none
  leaseUntil := none
  heartbeatAt := none
  updatedAt := updatedAt

/-- The trigger `missions_runtime_after_insert`. -/
def insertRuntime (m : MissionRow) (t : List RuntimeRow) : List RuntimeRow :=
  if (row RuntimeRow.missionId m.id t).isSome then t else t ++ [defaultRuntime m.id m.updatedAt]

def Db.addMission (db : Db) (m : MissionRow) : Db :=
  { db with
    missions := db.missions ++ [m]
    missionRuntime := insertRuntime m db.missionRuntime }

def createMission (a : NewMission) : BrokerTxn (Option MissionRow) := do
  insert (fun db => (row MissionRow.id a.id db.missions).isSome ||
    (row MissionRow.requestId a.requestId db.missions).isSome) fun db => db.addMission a.row
  let _ ← appendEvent a.draft
  select fun db => row MissionRow.id a.id db.missions

theorem createMission_spec (a : NewMission) (x : TxEnv) (c : Conn) :
    (createMission a).wp x c (fun r c' => r = some a.row ∧
      (row MissionRow.id a.id c.db.missions = none ∧
        row MissionRow.requestId a.requestId c.db.missions = none) ∧
      Logs x ⟨c.db.addMission a.row, c.drawn⟩ [a.draft] c') fun _ => True := by
  simp only [createMission, Txn.wp_bind, wp_insert, wp_select]
  refine ⟨fun hv => wp_appendEvent (fun head hh => ?_) fun _ => trivial, fun _ => trivial⟩
  have hv := Bool.or_eq_false_iff.1 hv
  have hid : row MissionRow.id a.id c.db.missions = none := by simpa using hv.1
  exact ⟨row_append_new (r := a.row) hid, ⟨hid, by simpa using hv.2⟩, .single _ hh⟩

structure NewIncident where
  (id requestId projectId title severity actorId : String)
  now : DateTime

def NewIncident.row (a : NewIncident) : IncidentRow where
  id := a.id
  requestId := a.requestId
  projectId := a.projectId
  title := a.title
  severity := a.severity
  status := .opened
  createdBy := a.actorId
  createdAt := isoformat a.now
  updatedAt := isoformat a.now

def NewIncident.draft (a : NewIncident) : AuditDraft where
  occurredAt := isoformat a.now
  eventType := "incident.created"
  actorId := a.actorId
  entityType := "incident"
  entityId := a.id
  payload := [("request_id", .str a.requestId), ("project_id", .str a.projectId),
    ("severity", .str a.severity)]

def defaultDetails (incidentId updatedAt : String) : IncidentDetailsRow where
  incidentId := incidentId
  service := ""
  resourceId := ""
  environment := "unknown"
  symptoms := ""
  impact := ""
  probableCausesJson := "[]"
  confirmedCause := ""
  resolution := ""
  rollback := ""
  recommendationsJson := "[]"
  versionsJson := "{}"
  updatedAt := updatedAt

/-- The trigger `incidents_details_after_insert`. -/
def insertDetails (i : IncidentRow) (t : List IncidentDetailsRow) : List IncidentDetailsRow :=
  if (row IncidentDetailsRow.incidentId i.id t).isSome then t
  else t ++ [defaultDetails i.id i.updatedAt]

def Db.addIncident (db : Db) (i : IncidentRow) : Db :=
  { db with
    incidents := db.incidents ++ [i]
    incidentDetails := insertDetails i db.incidentDetails }

def createIncident (a : NewIncident) : BrokerTxn (Option IncidentRow) := do
  insert (fun db => (row IncidentRow.id a.id db.incidents).isSome ||
    (row IncidentRow.requestId a.requestId db.incidents).isSome) fun db => db.addIncident a.row
  let _ ← appendEvent a.draft
  select fun db => row IncidentRow.id a.id db.incidents

theorem createIncident_spec (a : NewIncident) (x : TxEnv) (c : Conn) :
    (createIncident a).wp x c (fun r c' => r = some a.row ∧
      (row IncidentRow.id a.id c.db.incidents = none ∧
        row IncidentRow.requestId a.requestId c.db.incidents = none) ∧
      Logs x ⟨c.db.addIncident a.row, c.drawn⟩ [a.draft] c') fun _ => True := by
  simp only [createIncident, Txn.wp_bind, wp_insert, wp_select]
  refine ⟨fun hv => wp_appendEvent (fun head hh => ?_) fun _ => trivial, fun _ => trivial⟩
  have hv := Bool.or_eq_false_iff.1 hv
  have hid : row IncidentRow.id a.id c.db.incidents = none := by simpa using hv.1
  exact ⟨row_append_new (r := a.row) hid, ⟨hid, by simpa using hv.2⟩, .single _ hh⟩

/-! ## Status changes -/

/-- What `_set_entity_status` knows of an entity: its table, the table of its changes, the
allowed transitions, and what follows a change. -/
structure StatusEntity (σ : Type) where
  entityType : String
  text : σ → String
  transitions : σ → List σ
  find : Db → String → Option (String × σ)
  changes : Db → List (StatusChangeRow σ)
  setChanges : List (StatusChangeRow σ) → Db → Db
  setStatus : String → σ → String → Db → Db
  follow : String → String → σ → String → BrokerTxn Unit

def MissionStatus.transitions : MissionStatus → List MissionStatus
  | opened => [paused, completed]
  | paused => [opened, completed]
  | completed => []

def IncidentStatus.transitions : IncidentStatus → List IncidentStatus
  | opened => [monitoring, resolved]
  | monitoring => [opened, resolved]
  | resolved => []

def MissionStatus.queueState : MissionStatus → QueueState
  | opened => .queued
  | paused => .blocked
  | completed => .done

def RuntimeRow.release (r : RuntimeRow) (q : QueueState) (now : String) : RuntimeRow :=
  { r with
    queueState := q
    claimedBy := none
    claimedAt := none
    heartbeatAt := none
    leaseUntil := none
    updatedAt := now }

def lockReleasedDraft (actorId entityId : String) (status : MissionStatus) (now : String)
    (lock : LockRow) : AuditDraft where
  occurredAt := now
  eventType := "resource_lock.released_on_mission_status"
  actorId := actorId
  entityType := "resource"
  entityId := lock.resourceId
  payload := [("mission_id", .str entityId), ("status", .str status.text)]

def Db.setRuntime (db : Db) (t : List RuntimeRow) : Db :=
  { db with missionRuntime := t }

def Db.updateRuntime (db : Db) (missionId : String) (f : RuntimeRow → RuntimeRow) : Db :=
  db.setRuntime (update (fun r => r.missionId = missionId) f db.missionRuntime)

/-- What follows a change of a mission's status: the queue, and the locks of a mission
that does not go on. The locks are listed in the order of their insertion. -/
def followMission (actorId entityId : String) (status : MissionStatus) (now : String) :
    BrokerTxn Unit := do
  write fun db => db.updateRuntime entityId fun r => r.release status.queueState now
  if status = .paused ∨ status = .completed then
    let heldLocks ← select fun db => db.resourceLocks.filter fun l => l.missionId = entityId
    write fun db => { db with
      resourceLocks := db.resourceLocks.filter fun l => l.missionId ≠ entityId }
    appendEvents (heldLocks.map (lockReleasedDraft actorId entityId status now))
  else pure ()

/-- The database after `followMission`. -/
def followedMission (entityId : String) (status : MissionStatus) (now : String) (db : Db) : Db :=
  { db.updateRuntime entityId (fun r => r.release status.queueState now) with
    resourceLocks := if status = .paused ∨ status = .completed then
      db.resourceLocks.filter fun l => l.missionId ≠ entityId else db.resourceLocks }

/-- The events of `followMission`. -/
def followDrafts (actorId entityId : String) (status : MissionStatus) (now : String) (db : Db) :
    List AuditDraft :=
  if status = .paused ∨ status = .completed then
    (db.resourceLocks.filter fun l => l.missionId = entityId).map
      (lockReleasedDraft actorId entityId status now)
  else []

def missionEntity : StatusEntity MissionStatus where
  entityType := "mission"
  text := MissionStatus.text
  transitions := MissionStatus.transitions
  find db id := (row MissionRow.id id db.missions).map fun r => (r.projectId, r.status)
  changes := Db.missionStatusChanges
  setChanges t db := { db with missionStatusChanges := t }
  setStatus id status now db := { db with
    missions := update (fun r => r.id = id)
      (fun r => { r with status := status, updatedAt := now }) db.missions }
  follow := followMission

def incidentEntity : StatusEntity IncidentStatus where
  entityType := "incident"
  text := IncidentStatus.text
  transitions := IncidentStatus.transitions
  find db id := (row IncidentRow.id id db.incidents).map fun r => (r.projectId, r.status)
  changes := Db.incidentStatusChanges
  setChanges t db := { db with incidentStatusChanges := t }
  setStatus id status now db := { db with
    incidents := update (fun r => r.id = id)
      (fun r => { r with status := status, updatedAt := now }) db.incidents }
  follow := fun _ _ _ _ => pure ()

/-- The arguments of the transaction of `_set_entity_status`. -/
structure StatusChange (σ : Type) where
  (actorId requestId entityId : String)
  status : σ

/-- What the transaction of `_set_entity_status` hands on: the row of the change, the
current status, and whether the change is a replay. -/
structure StatusReply (σ : Type) where
  change : Option (StatusChangeRow σ)
  current : σ
  replayed : Bool

section statusChange

variable {σ : Type} [DecidableEq σ] (e : StatusEntity σ) (a : StatusChange σ)

def StatusChange.row (previous : σ) (now : String) : StatusChangeRow σ where
  requestId := a.requestId
  entityId := a.entityId
  actorId := a.actorId
  previousStatus := previous
  newStatus := a.status
  createdAt := now

def StatusChange.draft (project : String) (previous : σ) (now : String) : AuditDraft where
  occurredAt := now
  eventType := e.entityType ++
    (if previous ≠ a.status then ".status_changed" else ".status_unchanged")
  actorId := a.actorId
  entityType := e.entityType
  entityId := a.entityId
  payload := [("request_id", .str a.requestId), ("project_id", .str project),
    ("previous_status", .str (e.text previous)), ("status", .str (e.text a.status)),
    ("changed", .bool (previous ≠ a.status))]

def setEntityStatus : BrokerTxn (StatusReply σ) := do
  let current ← select fun db => e.find db a.entityId
  let (project, currentStatus) ← Txn.expect current (.notFound e.entityType)
  let existing ← select fun db => row StatusChangeRow.requestId a.requestId (e.changes db)
  match existing with
  | some existing =>
    Txn.demand (existing.entityId = a.entityId ∧ existing.actorId = a.actorId ∧
      existing.newStatus = a.status)
      (.conflict ("request_id was already used for a different " ++ e.entityType ++ " status"))
    return ⟨some existing, currentStatus, true⟩
  | none =>
    Txn.demand (currentStatus = a.status ∨ a.status ∈ e.transitions currentStatus)
      (.conflict (e.entityType ++ " cannot transition from " ++ e.text currentStatus ++ " to " ++
        e.text a.status))
    let now ← sampleTime
    write fun db => e.setChanges (e.changes db ++ [a.row currentStatus (isoformat now)]) db
    if currentStatus ≠ a.status then
      write (e.setStatus a.entityId a.status (isoformat now))
      e.follow a.actorId a.entityId a.status (isoformat now)
    else pure ()
    let _ ← appendEvent (a.draft e project currentStatus (isoformat now))
    let stored ← select fun db => row StatusChangeRow.requestId a.requestId (e.changes db)
    return ⟨stored, a.status, false⟩

/-- The laws of an entity: what the change of a status does not touch, and what follows
it, the data `D` and the events `L`. -/
structure StatusEntity.Lawful (D : String → Db → Db) (L : String → Db → List AuditDraft) :
    Prop where
  changes_set : ∀ t db, e.changes (e.setChanges t db) = t
  changes_status : ∀ id s now db, e.changes (e.setStatus id s now db) = e.changes db
  changes_follow : ∀ now db, e.changes (D now db) = e.changes db
  changes_logs : ∀ x c ds c', Logs x c ds c' → e.changes c'.db = e.changes c.db
  follow : ∀ now x c Q (E : PyError → Prop),
    (∀ c', Logs x ⟨D now c.db, c.drawn⟩ (L now c.db) c' → Q () c') → (∀ e, E e) →
    (e.follow a.actorId a.entityId a.status now).wp x c Q E

/-- The database with a change of status recorded, and carried out unless the status stays
the same. -/
def StatusChange.carried (D : String → Db → Db) (previous : σ) (now : String) (db : Db) : Db :=
  let db := e.setChanges (e.changes db ++ [a.row previous now]) db
  if previous ≠ a.status then D now (e.setStatus a.entityId a.status now db) else db

def StatusChange.drafts (L : String → Db → List AuditDraft) (project : String) (previous : σ)
    (now : String) (db : Db) : List AuditDraft :=
  (if previous ≠ a.status then L now (e.setStatus a.entityId a.status now
    (e.setChanges (e.changes db ++ [a.row previous now]) db)) else []) ++
    [a.draft e project previous now]

variable {e a}

theorem setEntityStatus_spec {D : String → Db → Db} {L : String → Db → List AuditDraft}
    (he : e.Lawful a D L) (x : TxEnv) (c : Conn) :
    (setEntityStatus e a).wp x c (fun r c' => ∃ project st, e.find c.db a.entityId =
        some (project, st) ∧
      ((∃ existing, row StatusChangeRow.requestId a.requestId (e.changes c.db) = some existing ∧
          (existing.entityId = a.entityId ∧ existing.actorId = a.actorId ∧
            existing.newStatus = a.status) ∧ r = ⟨some existing, st, true⟩ ∧ c' = c) ∨
        (row StatusChangeRow.requestId a.requestId (e.changes c.db) = none ∧
          (st = a.status ∨ a.status ∈ e.transitions st) ∧
          r = ⟨some (a.row st (isoformat x.time)), a.status, false⟩ ∧
          Logs x ⟨a.carried e D st (isoformat x.time) c.db, c.drawn⟩
            (a.drafts e L project st (isoformat x.time) c.db) c'))) fun _ => True := by
  simp only [setEntityStatus, Txn.wp_bind, wp_select, Txn.wp_expect]
  refine ⟨?_, fun _ => trivial⟩
  rintro ⟨project, st⟩ hfind
  dsimp only
  cases hex : row StatusChangeRow.requestId a.requestId (e.changes c.db) with
  | some existing =>
    simp only [Txn.wp_bind, Txn.wp_demand, Txn.wp_pure]
    exact ⟨fun hsame => ⟨project, st, hfind, Or.inl ⟨existing, rfl, hsame, rfl, trivial⟩⟩,
      fun _ => trivial⟩
  | none =>
    simp only [Txn.wp_bind, Txn.wp_demand, wp_sampleTime, wp_write, Txn.wp_ite, Txn.wp_pure,
      wp_select]
    have hstored : ∀ t : List (StatusChangeRow σ), t = e.changes c.db ++
        [a.row st (isoformat x.time)] →
        row StatusChangeRow.requestId a.requestId t = some (a.row st (isoformat x.time)) := by
      rintro t rfl
      exact row_append_new (r := a.row st (isoformat x.time)) hex
    refine ⟨fun hmove => ⟨fun hne => ?_, fun heq => ?_⟩, fun _ => trivial⟩
    · refine he.follow _ _ _ _ _ (fun c₁ h₁ => ?_) fun _ => trivial
      refine wp_appendEvent (fun head hh => ?_) fun _ => trivial
      have h := h₁.snoc (a.draft e project st (isoformat x.time)) hh
      refine ⟨project, st, hfind, Or.inr ⟨trivial, hmove, ?_, ?_⟩⟩
      · rw [hstored _ ((he.changes_logs _ _ _ _ h).trans ((he.changes_follow _ _).trans
          ((he.changes_status _ _ _ _).trans (he.changes_set _ _))))]
      · simpa [StatusChange.carried, StatusChange.drafts, hne] using h
    · refine wp_appendEvent (fun head hh => ?_) fun _ => trivial
      have h := Logs.single (x := x) (a.draft e project st (isoformat x.time)) hh
      refine ⟨project, st, hfind, Or.inr ⟨trivial, hmove, ?_, ?_⟩⟩
      · rw [hstored _ ((he.changes_logs _ _ _ _ h).trans (he.changes_set _ _))]
      · simpa [StatusChange.carried, StatusChange.drafts, heq] using h

end statusChange

theorem missionEntity_lawful (a : StatusChange MissionStatus) :
    missionEntity.Lawful a (followedMission a.entityId a.status)
      (followDrafts a.actorId a.entityId a.status) where
  changes_set _ _ := rfl
  changes_status _ _ _ _ := rfl
  changes_follow _ _ := rfl
  changes_logs x c ds c' h := by
    rw [h.data]
    rfl
  follow now x c Q E hQ hE := by
    simp only [missionEntity, followMission, Txn.wp_bind, wp_write, Txn.wp_ite, wp_select,
      Txn.wp_pure]
    refine ⟨fun hs => wp_appendEvents (fun c' h => hQ c' ?_) hE, fun hs => hQ _ ?_⟩
    · rw [followedMission, followDrafts, if_pos hs, if_pos hs]
      exact h
    · rw [followedMission, followDrafts, if_neg hs, if_neg hs]
      exact .nil _

theorem incidentEntity_lawful (a : StatusChange IncidentStatus) :
    incidentEntity.Lawful a (fun _ db => db) (fun _ _ => []) where
  changes_set _ _ := rfl
  changes_status _ _ _ _ := rfl
  changes_follow _ _ := rfl
  changes_logs x c ds c' h := by
    rw [h.data]
    rfl
  follow now x c Q E hQ hE := hQ c (.nil c)

/-! ## Requests of actions -/

structure NewAction where
  (id requestId : String)
  (missionId incidentId : Option String)
  runbook : Runbook
  (actorId reason parametersJson : String)
  (argvJson budgetKey : Option String)
  status : ActionStatus
  approvalDeadline : Option String
  now : DateTime

namespace NewAction

variable (a : NewAction)

def row : ActionRow where
  id := a.id
  requestId := a.requestId
  missionId := a.missionId
  incidentId := a.incidentId
  projectId := a.runbook.project
  runbookId := a.runbook.id
  runbookVersion := a.runbook.version
  actionClass := a.runbook.actionClass
  requestedBy := a.actorId
  reason := a.reason
  parametersJson := a.parametersJson
  argvJson := a.argvJson
  budgetKey := a.budgetKey
  status := a.status
  approvalDeadline := a.approvalDeadline
  resultJson := none
  createdAt := isoformat a.now
  updatedAt := isoformat a.now

def draft (eventType : String) (payload : List (String × Value)) (wf : Wf (.obj payload)) :
    AuditDraft where
  occurredAt := isoformat a.now
  eventType := eventType
  actorId := a.actorId
  entityType := "action"
  entityId := a.id
  payload := payload
  wf := wf

def requestedDraft : AuditDraft :=
  a.draft "action.requested" [("request_id", .str a.requestId),
    ("runbook_id", .str a.runbook.id), ("project_id", .str a.runbook.project),
    ("action_class", .str a.runbook.actionClass.text)] (by simp [Wf, WfPairs, keys])

def exhaustedDraft : AuditDraft :=
  a.draft "action.denied" [("decision", .str "escalate"), ("code", .str "budget_exhausted")]
    (by simp [Wf, WfPairs, keys])

def reservedDraft (maxAttempts : ℕ) : AuditDraft :=
  a.draft "action.budget_reserved" [("max_attempts", .int maxAttempts)]
    (by simp [Wf, WfPairs, keys])

def usage (key : String) : BudgetRow where
  budgetKey := key
  actionId := a.id
  usedAt := isoformat a.now

end NewAction

def ActionRow.setStatus (status : ActionStatus) (now : String) (r : ActionRow) : ActionRow :=
  { r with status := status, updatedAt := now }

/-- A foreign key that names no row. -/
def dangling {R : Type} (key : R → String) (t : List R) (k : Option String) : Bool :=
  k.any fun k => (row key k t).isNone

/-- The attempts under a key that were used at a time or later. -/
def usedSince (key cutoff : String) (t : List BudgetRow) : ℕ :=
  t.countP fun u => u.budgetKey = key ∧ cutoff ≤ u.usedAt

def Db.addAction (db : Db) (r : ActionRow) : Db :=
  { db with actions := db.actions ++ [r] }

/-- The database with an attempt reserved. -/
def Db.addUsage (db : Db) (u : BudgetRow) : Db :=
  { db with budgetUsage := db.budgetUsage ++ [u] }

/-- The database with the actions that satisfy a condition rewritten. -/
def Db.updateActions (db : Db) (p : ActionRow → Bool) (f : ActionRow → ActionRow) : Db :=
  { db with actions := update p f db.actions }

/-- The reservation of a budget inside `request_action`: whether the budget is exhausted. -/
def reserveBudget (a : NewAction) : BrokerTxn Bool :=
  match a.runbook.budget, a.budgetKey with
  | some budget, some key => do
    let cutoff ← Txn.expect (a.now.addSeconds (-budget.windowSeconds)) .overflow
    let used ← select fun db => usedSince key (isoformat cutoff) db.budgetUsage
    if budget.maxAttempts ≤ used then
      write fun db => db.updateActions (fun r => r.id = a.id)
        (ActionRow.setStatus .budgetExhausted (isoformat a.now))
      let _ ← appendEvent a.exhaustedDraft
      return true
    else
      insert (fun db => (row BudgetRow.actionId a.id db.budgetUsage).isSome)
        fun db => db.addUsage (a.usage key)
      let _ ← appendEvent (a.reservedDraft budget.maxAttempts)
      return false
  | _, _ => Txn.raise .assertion

/-- The transaction of `request_action`. -/
def insertAction (a : NewAction) : BrokerTxn (Bool × Option ActionRow) := do
  Txn.demand (a.runbook.version < 2 ^ 63) .overflow
  insert (fun db => (row ActionRow.id a.id db.actions).isSome ||
    (row ActionRow.requestId a.requestId db.actions).isSome ||
    dangling MissionRow.id db.missions a.missionId ||
    dangling IncidentRow.id db.incidents a.incidentId) fun db => db.addAction a.row
  let _ ← appendEvent a.requestedDraft
  let exhausted ← if a.runbook.actionClass = .b then reserveBudget a else pure false
  let r ← select fun db => row ActionRow.id a.id db.actions
  return (exhausted, r)

/-- What a request of class B does about its budget. -/
structure Reserves (a : NewAction) (budget : BudgetSpec) (key : String)
    (cutoff : DateTime) : Prop where
  budget_eq : a.runbook.budget = some budget
  key_eq : a.budgetKey = some key
  cutoff_eq : a.now.addSeconds (-budget.windowSeconds) = some cutoff

theorem reserveBudget_spec (a : NewAction) (x : TxEnv) (c : Conn) :
    (reserveBudget a).wp x c (fun r c' => ∃ budget key cutoff, Reserves a budget key cutoff ∧
      ((budget.maxAttempts ≤ usedSince key (isoformat cutoff) c.db.budgetUsage ∧ r = true ∧
          Logs x ⟨c.db.updateActions (fun r => r.id = a.id)
            (ActionRow.setStatus .budgetExhausted (isoformat a.now)), c.drawn⟩
            [a.exhaustedDraft] c') ∨
        (usedSince key (isoformat cutoff) c.db.budgetUsage < budget.maxAttempts ∧
          row BudgetRow.actionId a.id c.db.budgetUsage = none ∧ r = false ∧
          Logs x ⟨c.db.addUsage (a.usage key), c.drawn⟩
            [a.reservedDraft budget.maxAttempts] c'))) fun _ => True := by
  unfold reserveBudget
  split
  · next budget key hbudget hkey =>
    simp only [Txn.wp_bind, Txn.wp_expect, wp_select, Txn.wp_ite, wp_write, wp_insert,
      Txn.wp_pure]
    refine ⟨fun cutoff hcut => ⟨fun hle => ?_, fun hle => ⟨fun hu => ?_, fun _ => trivial⟩⟩,
      fun _ => trivial⟩
    · refine wp_appendEvent (fun head hh => ?_) fun _ => trivial
      exact ⟨budget, key, cutoff, ⟨hbudget, hkey, hcut⟩, Or.inl ⟨hle, trivial, .single _ hh⟩⟩
    · refine wp_appendEvent (fun head hh => ?_) fun _ => trivial
      exact ⟨budget, key, cutoff, ⟨hbudget, hkey, hcut⟩,
        Or.inr ⟨Nat.lt_of_not_le hle, by simpa using hu, trivial, .single _ hh⟩⟩
  · exact trivial

theorem insertAction_spec (a : NewAction) (x : TxEnv) (c : Conn) :
    (insertAction a).wp x c (fun r c' =>
      (row ActionRow.id a.id c.db.actions = none ∧
        row ActionRow.requestId a.requestId c.db.actions = none) ∧
      ((a.runbook.actionClass ≠ .b ∧ r = (false, some a.row) ∧
          Logs x ⟨c.db.addAction a.row, c.drawn⟩ [a.requestedDraft] c') ∨
        (a.runbook.actionClass = .b ∧ ∃ budget key cutoff, Reserves a budget key cutoff ∧
          ((budget.maxAttempts ≤ usedSince key (isoformat cutoff) c.db.budgetUsage ∧
              r = (true, some (a.row.setStatus .budgetExhausted (isoformat a.now))) ∧
              Logs x ⟨c.db.addAction (a.row.setStatus .budgetExhausted (isoformat a.now)),
                c.drawn⟩ [a.requestedDraft, a.exhaustedDraft] c') ∨
            (usedSince key (isoformat cutoff) c.db.budgetUsage < budget.maxAttempts ∧
              row BudgetRow.actionId a.id c.db.budgetUsage = none ∧
              r = (false, some a.row) ∧
              Logs x ⟨(c.db.addAction a.row).addUsage (a.usage key), c.drawn⟩
                [a.requestedDraft, a.reservedDraft budget.maxAttempts] c'))))) fun _ => True := by
  simp only [insertAction, Txn.wp_bind, Txn.wp_demand, wp_insert]
  refine ⟨fun _ => ⟨fun hv => wp_appendEvent (fun head hh => ?_) fun _ => trivial,
    fun _ => trivial⟩, fun _ => trivial⟩
  simp only [Bool.or_eq_false_iff, Option.isSome_eq_false_iff, Option.isNone_iff_eq_none] at hv
  obtain ⟨⟨⟨hid, hreq⟩, -⟩, -⟩ := hv
  rw [Txn.wp_ite]
  refine ⟨fun hb => ?_, fun hb => ?_⟩
  · rw [Txn.wp_bind]
    refine (reserveBudget_spec a x _).mono ?_ fun _ h => h
    rintro r c' ⟨budget, key, cutoff, hres, ⟨hle, rfl, hl⟩ | ⟨hlt, hu, rfl, hl⟩⟩
    · have hupd : (c.db.addAction a.row).updateActions (fun r => r.id = a.id)
          (ActionRow.setStatus .budgetExhausted (isoformat a.now)) =
          c.db.addAction (a.row.setStatus .budgetExhausted (isoformat a.now)) :=
        congrArg (fun t => { c.db with actions := t })
          (update_append_new (g := ActionRow.id) (r := a.row) hid _)
      have hl : Logs x ⟨(c.db.addAction a.row).updateActions (fun r => r.id = a.id)
          (ActionRow.setStatus .budgetExhausted (isoformat a.now)), c.drawn⟩
          [a.requestedDraft, a.exhaustedDraft] c' := .cons hh hl
      rw [hupd] at hl
      have hrow : row ActionRow.id a.id c'.db.actions =
          some (a.row.setStatus .budgetExhausted (isoformat a.now)) := by
        rw [hl.actions]
        exact row_append_new (r := a.row.setStatus .budgetExhausted (isoformat a.now)) hid
      exact ⟨⟨hid, hreq⟩, Or.inr ⟨hb, budget, key, cutoff, hres,
        Or.inl ⟨hle, congrArg (Prod.mk true) hrow, hl⟩⟩⟩
    · have hl : Logs x ⟨(c.db.addAction a.row).addUsage (a.usage key), c.drawn⟩
          [a.requestedDraft, a.reservedDraft budget.maxAttempts] c' := .cons hh hl
      have hrow : row ActionRow.id a.id c'.db.actions = some a.row := by
        rw [hl.actions]
        exact row_append_new (r := a.row) hid
      exact ⟨⟨hid, hreq⟩, Or.inr ⟨hb, budget, key, cutoff, hres,
        Or.inr ⟨hlt, hu, congrArg (Prod.mk false) hrow, hl⟩⟩⟩
  · exact ⟨⟨hid, hreq⟩, Or.inl ⟨hb, congrArg (Prod.mk false) (row_append_new (r := a.row) hid),
      .single _ hh⟩⟩

/-! ## Execution -/

structure ActionWrite where
  (actionId actorId : String)
  now : DateTime

namespace ActionWrite

variable (a : ActionWrite)

def draft (eventType : String) (payload : List (String × Value)) (wf : Wf (.obj payload)) :
    AuditDraft where
  occurredAt := isoformat a.now
  eventType := eventType
  actorId := a.actorId
  entityType := "action"
  entityId := a.actionId
  payload := payload
  wf := wf

/-- The event of an expiry that `execute_action` noticed. -/
def expiredDraft : AuditDraft :=
  a.draft "action.approval_expired" [("decision", .str "deny")] (by simp [Wf, WfPairs, keys])

def startedDraft (runbookId : String) : AuditDraft :=
  a.draft "action.started" [("runbook_id", .str runbookId)] (by simp [Wf, WfPairs, keys])

end ActionWrite

/-- The transaction of `execute_action` when the approval request is past its deadline. -/
def expirePending (a : ActionWrite) : BrokerTxn Unit := do
  let changed ← select fun db =>
    db.actions.countP fun r => r.id = a.actionId ∧ r.status = .pendingApproval
  write fun db => db.updateActions
    (fun r => r.id = a.actionId ∧ r.status = .pendingApproval)
    (ActionRow.setStatus .approvalExpired (isoformat a.now))
  if changed = 1 then
    let _ ← appendEvent a.expiredDraft
  else pure ()

/-- The transaction of `execute_action` when the approval is past its expiry. -/
def expireApproved (a : ActionWrite) : BrokerTxn Unit := do
  write fun db => db.updateActions (fun r => r.id = a.actionId)
    (ActionRow.setStatus .approvalExpired (isoformat a.now))
  let _ ← appendEvent a.expiredDraft

def executable (actionId : String) (r : ActionRow) : Bool :=
  r.id = actionId ∧ (r.status = .authorized ∨ r.status = .approved)

/-- The transaction of `execute_action` that claims the action. -/
def startAction (a : ActionWrite) (runbookId : String) : BrokerTxn Unit := do
  let changed ← select fun db => db.actions.countP (executable a.actionId)
  Txn.demand (changed = 1) (.conflict "action was concurrently claimed")
  write fun db => db.updateActions (executable a.actionId)
    (ActionRow.setStatus .running (isoformat a.now))
  let _ ← appendEvent (a.startedDraft runbookId)

structure ExecutionResult where
  returnCode : ℤ
  (stdout stderr : String)
  (timedOut truncated : Bool)

namespace ExecutionResult

variable (r : ExecutionResult)

def bound (outputMaxBytes : ℕ) (output : String) : String :=
  ofChars (utf8Take outputMaxBytes (toChars (redactText output)))

/-- The result as `execute_action` keeps it. -/
def bounded (outputMaxBytes : ℕ) : ExecutionResult where
  returnCode := r.returnCode
  stdout := bound outputMaxBytes r.stdout
  stderr := bound outputMaxBytes r.stderr
  timedOut := r.timedOut
  truncated := r.truncated || outputMaxBytes < utf8Length (toChars (redactText r.stdout)) ||
    outputMaxBytes < utf8Length (toChars (redactText r.stderr))

def status : ActionStatus :=
  if r.returnCode = 0 ∧ r.timedOut = false then .succeeded else .failed

def resultJson : String :=
  canonicalJson (.obj [("return_code", .int r.returnCode), ("stdout", .str r.stdout),
    ("stderr", .str r.stderr), ("timed_out", .bool r.timedOut),
    ("truncated", .bool r.truncated)])

def finish (now : String) (a : ActionRow) : ActionRow :=
  { a with status := r.status, resultJson := some r.resultJson, updatedAt := now }

def draft (a : ActionWrite) : AuditDraft :=
  a.draft ("action." ++ r.status.text) [("return_code", .int r.returnCode),
    ("timed_out", .bool r.timedOut), ("truncated", .bool r.truncated)]
    (by simp [Wf, WfPairs, keys])

end ExecutionResult

/-- The last transaction of `execute_action`. -/
def finishAction (a : ActionWrite) (result : ExecutionResult) :
    BrokerTxn (Option ActionRow) := do
  write fun db => db.updateActions (fun r => r.id = a.actionId) (result.finish (isoformat a.now))
  let _ ← appendEvent (result.draft a)
  select fun db => row ActionRow.id a.actionId db.actions

section execution

variable (a : ActionWrite) (x : TxEnv) (c : Conn)

theorem expirePending_spec : (expirePending a).wp x c (fun _ c' =>
    Logs x ⟨c.db.updateActions (fun r => r.id = a.actionId ∧ r.status = .pendingApproval)
      (ActionRow.setStatus .approvalExpired (isoformat a.now)), c.drawn⟩
      (if c.db.actions.countP (fun r => r.id = a.actionId ∧ r.status = .pendingApproval) = 1
        then [a.expiredDraft] else []) c') fun _ => True := by
  simp only [expirePending, Txn.wp_bind, wp_select, wp_write, Txn.wp_ite, Txn.wp_pure]
  refine ⟨fun h => wp_appendEvent (fun head hh => ?_) fun _ => trivial, fun h => ?_⟩
  · rw [if_pos h]
    exact .single _ hh
  · rw [if_neg h]
    exact .nil _

theorem expireApproved_spec : (expireApproved a).wp x c (fun _ c' =>
    Logs x ⟨c.db.updateActions (fun r => r.id = a.actionId)
      (ActionRow.setStatus .approvalExpired (isoformat a.now)), c.drawn⟩ [a.expiredDraft] c')
    fun _ => True := by
  simp only [expireApproved, Txn.wp_bind, wp_write]
  exact wp_appendEvent (fun head hh => .single _ hh) fun _ => trivial

theorem startAction_spec (runbookId : String) : (startAction a runbookId).wp x c (fun _ c' =>
    c.db.actions.countP (executable a.actionId) = 1 ∧
    Logs x ⟨c.db.updateActions (executable a.actionId)
      (ActionRow.setStatus .running (isoformat a.now)), c.drawn⟩ [a.startedDraft runbookId] c')
    fun _ => True := by
  simp only [startAction, Txn.wp_bind, wp_select, Txn.wp_demand, wp_write]
  exact ⟨fun h => wp_appendEvent (fun head hh => ⟨h, .single _ hh⟩) fun _ => trivial,
    fun _ => trivial⟩

theorem finishAction_spec (result : ExecutionResult) : (finishAction a result).wp x c
    (fun r c' => r = row ActionRow.id a.actionId c'.db.actions ∧
      Logs x ⟨c.db.updateActions (fun r => r.id = a.actionId) (result.finish (isoformat a.now)),
        c.drawn⟩ [result.draft a] c') fun _ => True := by
  simp only [finishAction, Txn.wp_bind, wp_write, wp_select]
  exact wp_appendEvent (fun head hh => ⟨trivial, .single _ hh⟩) fun _ => trivial

end execution

/-! ## Decisions -/

/-- The arguments of the transaction of `decide_approval`. -/
structure DecideArgs where
  (approvalId actorId requestId actionId : String)
  decision : Decision
  source : String
  sourceEventId : Option String
  reason : String
  now : DateTime

/-- How the transaction of `decide_approval` ends. -/
inductive DecideReply where
  /-- The decision was made before. -/
  | duplicate (r : ApprovalRow)
  /-- The decision is refused, after the commit. -/
  | denied (e : PyError)
  /-- The deadline of the action has passed. -/
  | expired
  | decided (r : Option ApprovalRow)

namespace DecideArgs

variable (a : DecideArgs)

def row (expiresAt : String) : ApprovalRow where
  id := a.approvalId
  requestId := a.requestId
  actionId := a.actionId
  actorId := a.actorId
  decision := a.decision
  source := a.source
  sourceEventId := a.sourceEventId
  reason := a.reason
  createdAt := isoformat a.now
  expiresAt := expiresAt

/-- A prior decision is the same decision. -/
def same (r : ApprovalRow) : Prop :=
  r.actionId = a.actionId ∧ r.actorId = a.actorId ∧ r.decision = a.decision ∧
    r.source = a.source ∧ r.sourceEventId = a.sourceEventId ∧ r.reason = a.reason

instance (r : ApprovalRow) : Decidable (a.same r) :=
  inferInstanceAs (Decidable (_ ∧ _))

def status : ActionStatus :=
  match a.decision with
  | .approve => .approved
  | .reject => .rejected

def draft (eventType : String) (payload : List (String × Value)) (wf : Wf (.obj payload)) :
    AuditDraft where
  occurredAt := isoformat a.now
  eventType := eventType
  actorId := a.actorId
  entityType := "action"
  entityId := a.actionId
  payload := payload
  wf := wf

def deniedDraft (code : String) : AuditDraft :=
  a.draft "approval.denied" [("decision", .str "deny"), ("code", .str code),
    ("request_id", .str a.requestId)] (by simp [Wf, WfPairs, keys])

/-- The event of a decision after the deadline. -/
def expiredDraft : AuditDraft :=
  a.draft "approval.expired" [("decision", .str "deny"), ("request_id", .str a.requestId)]
    (by simp [Wf, WfPairs, keys])

def optional (s : Option String) : Value :=
  match s with
  | some s => .str s
  | none => .null

theorem wf_optional (s : Option String) : Wf (optional s) := by
  cases s <;> trivial

def decidedDraft : AuditDraft :=
  a.draft (match a.decision with
    | .approve => "approval.approved"
    | .reject => "approval.rejected")
    [("approval_id", .str a.approvalId), ("request_id", .str a.requestId),
      ("source", .str a.source), ("source_event_id", optional a.sourceEventId)]
    (by simp [Wf, WfPairs, keys, wf_optional])

def check (policy : ActionPolicy) (action : ActionRow) : Except PyError Unit := do
  policy.requireApprovalActor a.actorId
  if a.actorId = action.requestedBy then
    .error (.authorizationDenied "an action requester cannot approve its own action")
  else if action.actionClass ≠ .c then
    .error (.authorizationDenied "only class C actions accept human approval")
  else if action.status ≠ .pendingApproval then
    .error (.conflict "action is not awaiting approval")
  else .ok ()

end DecideArgs

/-- A prior decision answers the call, or the call is in conflict with it. -/
def answerPrior (a : DecideArgs) : List ApprovalRow → BrokerTxn (Option ApprovalRow)
  | [] => pure none
  | prior :: _ => do
    Txn.demand (a.same prior) (.conflict "approval request or source event was already consumed")
    return some prior

def recordDecision (a : DecideArgs) (expiresAt : String) : BrokerTxn DecideReply := do
  insert (fun db => (row ApprovalRow.id a.approvalId db.approvals).isSome ||
    (row ApprovalRow.requestId a.requestId db.approvals).isSome ||
    a.sourceEventId.any fun e => (row ApprovalRow.sourceEventId (some e) db.approvals).isSome)
    fun db => { db with approvals := db.approvals ++ [a.row expiresAt] }
  let changed ← select fun db =>
    db.actions.countP fun r => r.id = a.actionId ∧ r.status = .pendingApproval
  write fun db => db.updateActions (fun r => r.id = a.actionId ∧ r.status = .pendingApproval)
    (ActionRow.setStatus a.status (isoformat a.now))
  Txn.demand (changed = 1) (.conflict "action approval was concurrently decided")
  let _ ← appendEvent a.decidedDraft
  let r ← select fun db => row ApprovalRow.id a.approvalId db.approvals
  return .decided r

def decideApproval (policy : ActionPolicy) (a : DecideArgs) : BrokerTxn DecideReply := do
  let action ← select fun db => row ActionRow.id a.actionId db.actions
  let action ← Txn.expect action (.notFound "action")
  let duplicate ← select fun db => row ApprovalRow.requestId a.requestId db.approvals
  let sourceDuplicate ← select fun db =>
    a.sourceEventId.bind fun e => row ApprovalRow.sourceEventId (some e) db.approvals
  let prior ← answerPrior a (duplicate.toList ++ sourceDuplicate.toList)
  match prior with
  | some prior => return .duplicate prior
  | none =>
    match a.check policy action with
    | .error (.broker code message status details) =>
      let _ ← appendEvent (a.deniedDraft code)
      return .denied (.broker code message status details)
    | .error e => Txn.raise e
    | .ok () =>
      match action.approvalDeadline with
      | none => return .denied (.conflict "class C action has no approval deadline")
      | some expiresAt =>
        let deadline ← Txn.expect (parseTimestamp expiresAt) .valueError
        if deadline ≤ a.now then
          write fun db => db.updateActions (fun r => r.id = a.actionId)
            (ActionRow.setStatus .approvalExpired (isoformat a.now))
          let _ ← appendEvent a.expiredDraft
          return .expired
        else recordDecision a expiresAt

/-- The database with a decision recorded. -/
def Db.decide (db : Db) (a : DecideArgs) (expiresAt : String) : Db :=
  { db.updateActions (fun r => r.id = a.actionId ∧ r.status = .pendingApproval)
      (ActionRow.setStatus a.status (isoformat a.now)) with
    approvals := db.approvals ++ [a.row expiresAt] }

theorem recordDecision_spec (a : DecideArgs) (expiresAt : String) (x : TxEnv) (c : Conn) :
    (recordDecision a expiresAt).wp x c (fun r c' =>
      row ApprovalRow.id a.approvalId c.db.approvals = none ∧
      c.db.actions.countP (fun r => r.id = a.actionId ∧ r.status = .pendingApproval) = 1 ∧
      r = .decided (some (a.row expiresAt)) ∧
      Logs x ⟨c.db.decide a expiresAt, c.drawn⟩ [a.decidedDraft] c') fun _ => True := by
  simp only [recordDecision, Txn.wp_bind, wp_insert, wp_select, wp_write, Txn.wp_demand,
    Txn.wp_pure]
  refine ⟨fun hv => ⟨fun hcount => wp_appendEvent (fun head hh => ?_) fun _ => trivial,
    fun _ => trivial⟩, fun _ => trivial⟩
  simp only [Bool.or_eq_false_iff, Option.isSome_eq_false_iff, Option.isNone_iff_eq_none] at hv
  have hrow := row_append_new (g := ApprovalRow.id) (r := a.row expiresAt) hv.1.1
  exact ⟨hv.1.1, hcount, congrArg DecideReply.decided hrow, .single _ hh⟩

theorem answerPrior_spec (a : DecideArgs) (l : List ApprovalRow) (x : TxEnv) (c : Conn) :
    (answerPrior a l).wp x c (fun r c' => c' = c ∧ r = l.head? ∧ ∀ p ∈ r, a.same p)
      fun _ => True := by
  cases l with
  | nil => simp [answerPrior]
  | cons p l => simp [answerPrior]

/-- What a commit of a decision does: nothing if the decision was made before, one event
if it is refused, the expiry of the action, or the decision. -/
theorem decideApproval_spec (policy : ActionPolicy) (a : DecideArgs) (x : TxEnv) (c : Conn) :
    (decideApproval policy a).wp x c (fun r c' => ∃ action,
      row ActionRow.id a.actionId c.db.actions = some action ∧
      ((∃ prior ∈ c.db.approvals, a.same prior ∧ r = .duplicate prior ∧ c' = c) ∨
        (∃ code message status details, a.check policy action =
            .error (.broker code message status details) ∧
          r = .denied (.broker code message status details) ∧
          Logs x c [a.deniedDraft code] c') ∨
        (r = .denied (.conflict "class C action has no approval deadline") ∧ c' = c) ∨
        (a.check policy action = .ok () ∧ r = .expired ∧
          Logs x ⟨c.db.updateActions (fun r => r.id = a.actionId)
            (ActionRow.setStatus .approvalExpired (isoformat a.now)), c.drawn⟩
            [a.expiredDraft] c') ∨
        (a.check policy action = .ok () ∧ ∃ expiresAt deadline,
          action.approvalDeadline = some expiresAt ∧
          parseTimestamp expiresAt = some deadline ∧ a.now < deadline ∧
          row ApprovalRow.id a.approvalId c.db.approvals = none ∧
          c.db.actions.countP (fun r => r.id = a.actionId ∧ r.status = .pendingApproval) = 1 ∧
          r = .decided (some (a.row expiresAt)) ∧
          Logs x ⟨c.db.decide a expiresAt, c.drawn⟩ [a.decidedDraft] c'))) fun _ => True := by
  simp only [decideApproval, Txn.wp_bind, wp_select, Txn.wp_expect]
  refine ⟨fun action haction => ?_, fun _ => trivial⟩
  refine (answerPrior_spec a _ x c).mono ?_ fun _ h => h
  rintro prior c' ⟨rfl, hprior, hsame⟩
  cases hp : prior with
  | some p =>
    rw [hp] at hprior hsame
    have hmem : p ∈ c'.db.approvals := by
      rcases List.mem_append.1 (List.mem_of_head? hprior.symm) with h | h
      · exact (row_some (Option.mem_toList.1 h)).1
      · obtain ⟨e, -, he⟩ := Option.bind_eq_some_iff.1 (Option.mem_toList.1 h)
        exact (row_some he).1
    exact ⟨action, haction, Or.inl ⟨p, hmem, hsame p rfl, rfl, rfl⟩⟩
  | none =>
    dsimp only
    cases hcheck : a.check policy action with
    | error e =>
      cases e with
      | broker code message status details =>
        simp only [Txn.wp_bind, Txn.wp_pure]
        exact wp_appendEvent (fun head hh => ⟨action, haction, Or.inr (Or.inl
          ⟨code, message, status, details, hcheck, rfl, .single _ hh⟩)⟩) fun _ => trivial
      | _ => exact trivial
    | ok =>
      dsimp only
      cases hdl : action.approvalDeadline with
      | none => exact ⟨action, haction, Or.inr (Or.inr (Or.inl ⟨rfl, rfl⟩))⟩
      | some expiresAt =>
        simp only [Txn.wp_bind, Txn.wp_expect, Txn.wp_ite, wp_write, Txn.wp_pure]
        refine ⟨fun deadline hparse => ⟨fun hle => ?_, fun hle => ?_⟩, fun _ => trivial⟩
        · exact wp_appendEvent (fun head hh => ⟨action, haction, Or.inr (Or.inr (Or.inr
            (Or.inl ⟨hcheck, trivial, .single _ hh⟩)))⟩) fun _ => trivial
        · refine (recordDecision_spec a expiresAt x c').mono ?_ fun _ h => h
          rintro r c'' ⟨hfresh, hcount, hr, hl⟩
          exact ⟨action, haction, Or.inr (Or.inr (Or.inr (Or.inr ⟨hcheck, expiresAt, deadline,
            hdl, hparse, not_le.1 hle, hfresh, hcount, hr, hl⟩)))⟩

end OpsControlPlane
