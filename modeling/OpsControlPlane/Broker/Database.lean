import OpsControlPlane.Broker.Policy
import OpsControlPlane.Lib.Transaction
import OpsControlPlane.Lib.HashChain

/-!
# The state store and its audit log

The tables of `database.py` with their columns, the transactions over them, and the
append-only hash-linked log of audit events. A table is the list of its rows in the order
of insertion. Columns that no modelled function reads are left out.

`verifySnapshot` is the check of the log. `AuditLog` reads it as a chain in the sense of
`HashChain`.
-/

namespace OpsControlPlane

open Text JsonText Calendar Transaction

variable [Platform]

/-! ## Enumerations -/

inductive MissionStatus where
  | opened
  | paused
  | completed
deriving DecidableEq

inductive IncidentStatus where
  | opened
  | monitoring
  | resolved
deriving DecidableEq

inductive QueueState where
  | queued
  | claimed
  | blocked
  | done
deriving DecidableEq

inductive ActionStatus where
  | authorized
  | pendingApproval
  | approved
  | rejected
  | approvalExpired
  | budgetExhausted
  | running
  | succeeded
  | failed
deriving DecidableEq

inductive Decision where
  | approve
  | reject
deriving DecidableEq

def MissionStatus.text : MissionStatus → String
  | opened => "open"
  | paused => "paused"
  | completed => "completed"

def IncidentStatus.text : IncidentStatus → String
  | opened => "open"
  | monitoring => "monitoring"
  | resolved => "resolved"

def QueueState.text : QueueState → String
  | queued => "queued"
  | claimed => "claimed"
  | blocked => "blocked"
  | done => "done"

def ActionStatus.text : ActionStatus → String
  | authorized => "authorized"
  | pendingApproval => "pending_approval"
  | approved => "approved"
  | rejected => "rejected"
  | approvalExpired => "approval_expired"
  | budgetExhausted => "budget_exhausted"
  | running => "running"
  | succeeded => "succeeded"
  | failed => "failed"

def Decision.text : Decision → String
  | approve => "approve"
  | reject => "reject"

/-! ## Rows -/

structure MissionRow where
  (id requestId projectId title : String)
  status : MissionStatus
  (createdBy createdAt updatedAt : String)

structure IncidentRow where
  (id requestId projectId title severity : String)
  status : IncidentStatus
  (createdBy createdAt updatedAt : String)

structure ActionRow where
  (id requestId : String)
  (missionId incidentId : Option String)
  (projectId runbookId : String)
  runbookVersion : ℕ
  actionClass : ActionClass
  (requestedBy reason parametersJson : String)
  (argvJson budgetKey : Option String)
  status : ActionStatus
  (approvalDeadline resultJson : Option String)
  (createdAt updatedAt : String)

structure ApprovalRow where
  (id requestId actionId actorId : String)
  decision : Decision
  source : String
  sourceEventId : Option String
  (reason createdAt expiresAt : String)

structure BudgetRow where
  (budgetKey actionId usedAt : String)

/-- `mission_status_changes` and `incident_status_changes`, over the statuses of each. -/
structure StatusChangeRow (σ : Type) where
  (requestId entityId actorId : String)
  (previousStatus newStatus : σ)
  createdAt : String

structure RuntimeRow where
  (missionId environment : String)
  priority : ℤ
  queueState : QueueState
  (objective summary impact risk planJson currentStep remainingStepsJson resourcesJson : String)
  (filesJson nextAction : String)
  (currentModelRole currentModel : Option String)
  (iterationCount maxIterations apiCallCount maxApiCalls : ℤ)
  (deadline claimedBy claimedAt leaseUntil heartbeatAt : Option String)
  updatedAt : String

/-- `mission_updates`, `incident_updates` and `action_artifact_updates`. -/
structure UpdateRow where
  (requestId entityId actorId payloadJson createdAt : String)

structure CheckpointRow where
  (id requestId missionId : String)
  sequence : ℕ
  (actorId phase summary decisionsJson completedJson pendingJson evidenceJson : String)
  (modelRole modelName : Option String)
  createdAt : String

structure RecordRow where
  (id requestId missionId : String)
  incidentId : Option String
  (actorId kind content : String)
  confidence : Option Flt
  evidenceJson : String
  modelTraceId : Option String
  createdAt : String

structure LockRow where
  (resourceId projectId missionId holderActorId : String)
  fencingToken : ℕ
  (acquiredAt heartbeatAt leaseUntil : String)

structure LockOperationRow where
  (requestId resourceId missionId actorId operation resultJson createdAt : String)

structure ClaimOperationRow where
  requestId : String
  missionId : Option String
  (actorId operation resultJson createdAt : String)

structure TraceRow where
  (id requestId missionId : String)
  parentTraceId : Option String
  (actorId modelRole provider modelName reason outcome : String)
  confidence : Option Flt
  (inputTokens outputTokens costMicrounits : ℤ)
  startedAt : String
  finishedAt : Option String

structure ArtifactsRow where
  actionId : String
  (beforeDigest afterDigest targetVersion rollbackRef diffArtifact : Option String)
  (healthcheckJson updatedAt : String)

structure IncidentDetailsRow where
  (incidentId service resourceId environment symptoms impact probableCausesJson : String)
  (confirmedCause resolution rollback recommendationsJson versionsJson updatedAt : String)

structure EventRow where
  seq : ℤ
  (eventId occurredAt eventType actorId entityType entityId payloadJson previousHash : String)
  eventHash : String

structure AuditHead where
  lastSeq : ℤ
  lastHash : String
deriving DecidableEq

def genesisHash : String :=
  ofChars (List.replicate 64 '0')

structure Db where
  missions : List MissionRow
  incidents : List IncidentRow
  actions : List ActionRow
  approvals : List ApprovalRow
  budgetUsage : List BudgetRow
  missionStatusChanges : List (StatusChangeRow MissionStatus)
  incidentStatusChanges : List (StatusChangeRow IncidentStatus)
  missionRuntime : List RuntimeRow
  missionUpdates : List UpdateRow
  missionCheckpoints : List CheckpointRow
  missionRecords : List RecordRow
  resourceLocks : List LockRow
  resourceLockOperations : List LockOperationRow
  missionClaimOperations : List ClaimOperationRow
  modelTraces : List TraceRow
  actionArtifacts : List ArtifactsRow
  actionArtifactUpdates : List UpdateRow
  incidentDetails : List IncidentDetailsRow
  incidentUpdates : List UpdateRow
  events : List EventRow
  auditHead : Option AuditHead

/-- A fresh database, as `_SCHEMA` leaves it. -/
def Db.fresh : Db where
  missions := []
  incidents := []
  actions := []
  approvals := []
  budgetUsage := []
  missionStatusChanges := []
  incidentStatusChanges := []
  missionRuntime := []
  missionUpdates := []
  missionCheckpoints := []
  missionRecords := []
  resourceLocks := []
  resourceLockOperations := []
  missionClaimOperations := []
  modelTraces := []
  actionArtifacts := []
  actionArtifactUpdates := []
  incidentDetails := []
  incidentUpdates := []
  events := []
  auditHead := some ⟨0, genesisHash⟩

/-! ## Transactions -/

/-- What a transaction takes from outside: a sample of the clock, and random bits for
each UUID it draws. -/
structure TxEnv where
  time : DateTime
  bits : ℕ → ℕ

/-- A connection inside a transaction: the database, and how many UUIDs were drawn. -/
structure Conn where
  db : Db
  drawn : ℕ

abbrev BrokerTxn (α : Type) : Type :=
  Txn TxEnv Conn PyError α

def select {α : Type} (f : Db → α) : BrokerTxn α :=
  Txn.query fun c => f c.db

def write (f : Db → Db) : BrokerTxn Unit :=
  Txn.modify fun c => { c with db := f c.db }

/-- Insert a row unless a constraint of the table is violated. -/
def insert (violated : Db → Bool) (f : Db → Db) : BrokerTxn Unit := do
  let v ← select violated
  Txn.demand (v = false) .integrity
  write f

/-- `self._now()`. -/
def sampleTime : BrokerTxn DateTime := do
  let x ← Txn.env
  return x.time

def drawUuid : BrokerTxn String := do
  let x ← Txn.env
  let n ← Txn.query Conn.drawn
  Txn.modify fun c => { c with drawn := c.drawn + 1 }
  return uuid4 (x.bits n)

section rules

variable {α : Type} {Q : α → Conn → Prop} {E : PyError → Prop} {x : TxEnv} {c : Conn}

@[simp] theorem wp_select (f : Db → α) : (select f).wp x c Q E ↔ Q (f c.db) c :=
  Iff.rfl

@[simp] theorem wp_write {Q : Unit → Conn → Prop} (f : Db → Db) :
    (write f).wp x c Q E ↔ Q () { c with db := f c.db } :=
  Iff.rfl

@[simp] theorem wp_insert {Q : Unit → Conn → Prop} (v : Db → Bool) (f : Db → Db) :
    (insert v f).wp x c Q E ↔
      (v c.db = false → Q () { c with db := f c.db }) ∧ (v c.db = true → E .integrity) := by
  simp [insert]

@[simp] theorem wp_sampleTime {Q : DateTime → Conn → Prop} :
    sampleTime.wp x c Q E ↔ Q x.time c :=
  Iff.rfl

@[simp] theorem wp_drawUuid {Q : String → Conn → Prop} : drawUuid.wp x c Q E ↔
    Q (uuid4 (x.bits c.drawn)) { c with drawn := c.drawn + 1 } :=
  Iff.rfl

end rules

/-! ## The audit log -/

/-- The arguments of `append_event`. -/
structure AuditDraft where
  (occurredAt eventType actorId entityType entityId : String)
  payload : List (String × Value)
  wf : Wf (.obj payload) := by simp [Wf, WfPairs, WfElems, keys]

def auditMaterial (seq : ℤ) (eventId occurredAt eventType actorId entityType entityId : String)
    (payload : Value) (previousHash : String) : Value :=
  .obj [("seq", .int seq), ("event_id", .str eventId), ("occurred_at", .str occurredAt),
    ("event_type", .str eventType), ("actor_id", .str actorId),
    ("entity_type", .str entityType), ("entity_id", .str entityId), ("payload", payload),
    ("previous_hash", .str previousHash)]

def nextEvent (head : AuditHead) (eventId : String) (d : AuditDraft) : EventRow where
  seq := head.lastSeq + 1
  eventId := eventId
  occurredAt := d.occurredAt
  eventType := d.eventType
  actorId := d.actorId
  entityType := d.entityType
  entityId := d.entityId
  payloadJson := canonicalJson (scrubPayload (.obj d.payload))
  previousHash := head.lastHash
  eventHash := Platform.sha256 (canonicalJson (auditMaterial (head.lastSeq + 1) eventId
    d.occurredAt d.eventType d.actorId d.entityType d.entityId (scrubPayload (.obj d.payload))
    head.lastHash))

def eventViolates (r : EventRow) (db : Db) : Bool :=
  db.events.any fun e => e.seq = r.seq ∨ e.eventId = r.eventId ∨ e.eventHash = r.eventHash

def Db.logEvent (db : Db) (r : EventRow) : Db :=
  { db with events := db.events ++ [r], auditHead := some ⟨r.seq, r.eventHash⟩ }

def appendEvent (d : AuditDraft) : BrokerTxn String := do
  let head ← select Db.auditHead
  let head ← Txn.expect head (.runtime "audit head is missing")
  let eventId ← drawUuid
  let r := nextEvent head eventId d
  insert (eventViolates r) fun db => { db with events := db.events ++ [r] }
  write fun db => { db with auditHead := some ⟨r.seq, r.eventHash⟩ }
  return eventId

structure AuditVerification where
  valid : Bool
  eventCount : ℕ
  failureSeq : Option ℤ
  reason : Option String
deriving DecidableEq

/-- The rows of the log, each checked behind the hash of its predecessor: the last hash,
or the sequence number and the reason of the first failure. -/
def verifyRows : ℤ → String → List EventRow → Except (ℤ × String) String
  | _, previousHash, [] => .ok previousHash
  | expectedSeq, previousHash, r :: rows =>
    if r.seq ≠ expectedSeq then .error (r.seq, "event sequence has a gap")
    else if r.previousHash ≠ previousHash then .error (r.seq, "previous hash mismatch")
    else
      match (loads r.payloadJson : Option Value) with
      | none => .error (r.seq, "payload is not canonical JSON")
      | some payload =>
        if canonicalJson payload ≠ r.payloadJson then
          .error (r.seq, "payload is not canonical JSON")
        else
          let calculated := Platform.sha256 (canonicalJson (auditMaterial r.seq r.eventId
            r.occurredAt r.eventType r.actorId r.entityType r.entityId payload r.previousHash))
          if calculated ≠ r.eventHash then .error (r.seq, "event hash mismatch")
          else verifyRows (expectedSeq + 1) calculated rows

def verifySnapshot (rows : List EventRow) (head : Option AuditHead) : AuditVerification :=
  match verifyRows 1 genesisHash rows with
  | .error (seq, reason) => ⟨false, rows.length, some seq, some reason⟩
  | .ok previousHash =>
    match head with
    | none => ⟨false, rows.length, none, some "audit head is missing"⟩
    | some h =>
      if h.lastSeq ≠ rows.length ∨ h.lastHash ≠ previousHash then
        ⟨false, rows.length, none, some "audit head mismatch"⟩
      else ⟨true, rows.length, none, none⟩

end OpsControlPlane
