import OpsControlPlane.Broker.ServiceMethods

/-!
# The methods of mission control

The methods of `mission_control.py` that write, as programs over the operations of
`Interface`. Each validates its arguments, samples the clock, commits one transaction and
shows what it answered.
-/

set_option linter.unusedSectionVars false

namespace OpsControlPlane

open Text JsonText Regex Calendar Transaction

variable [Platform]

/-! ## Checks of arguments -/

def ifGiven {α β : Type} (v : Option α) (check : α → Except PyError β) :
    Except PyError (Option β) :=
  match v with
  | none => .ok none
  | some a => do
    let v ← check a
    return some v

def invalidRequest (message : String) : PyError :=
  .invalid "invalid_request" message

/-- The value if it satisfies the condition. -/
def checked {α : Type} (a : α) (c : Prop) [Decidable c] (message : String) : Except PyError α :=
  if c then .ok a else .error (invalidRequest message)

/-- `_ENVIRONMENT.fullmatch`, `_PROVIDER.fullmatch`. -/
def isEnvironment (s : String) : Bool :=
  leads lowerAlnum (fun c => lowerAlnum c || c = '.' || c = '_' || c = '-') 0 63 (toChars s)

def isResourceId (s : String) : Bool :=
  leads lowerAlnum (fun c => lowerAlnum c || c = ':' || c = '.' || c = '_' || c = '/' || c = '-')
    1 191 (toChars s)

def modelRoles : List String :=
  ["ROLE_TINY", "ROLE_LOCAL_OPS", "ROLE_REASONING", "ROLE_CODER", "ROLE_EMBEDDING",
    "ROLE_RERANKER"]

def recordKinds : List String :=
  ["observation", "analysis", "decision", "handoff", "escalation"]

def traceOutcomes : List String :=
  ["selected", "succeeded", "failed", "escalated", "refused"]

def stringList (value : List String) (field : String) : Except PyError (List String) :=
  if 64 < value.length then .error (invalidRequest (field ++ " is invalid"))
  else value.mapM fun item => boundedText item field 0 1000

def listJson (value : List String) (field : String) : Except PyError String :=
  jsonText (.arr (value.map .str)) field

def stringListJson (field : String) (value : List String) : Except PyError String := do
  let items ← stringList value field
  listJson items field

def checkTimestamp (field value : String) : Except PyError String :=
  checked value (parseTimestamp value).isSome (field ++ " is invalid")

/-- `0.0 <= float(confidence) <= 1.0`, with the float. -/
def validateConfidence : Confidence → Except PyError Flt
  | .int n =>
    match Platform.floatOfInt n with
    | none => .error .overflow
    | some x => checked x (Platform.inUnit x = true) "confidence must be 0..1"
  | .float x => checked x (Platform.inUnit x = true) "confidence must be 0..1"

def validateLease (leaseSeconds : ℤ) : Except PyError Unit :=
  if 30 ≤ leaseSeconds ∧ leaseSeconds ≤ 3600 then .ok ()
  else .error (invalidRequest "lease_seconds must be 30..3600")

def validateCaller (actorId requestId : String) : Except PyError String := do
  validateActor actorId
  validateRequestId requestId

/-! ## Mission context -/

/-- The arguments of `update_mission_state`. -/
structure UpdateMission where
  (actorId requestId missionId : String)
  environment : Option String
  priority : Option ℤ
  (objective summary impact risk : Option String)
  plan : Option (List String)
  currentStep : Option String
  (remainingSteps resources files : Option (List String))
  (nextAction currentModelRole currentModel : Option String)
  (maxIterations maxApiCalls : Option ℤ)
  deadline : Option String

namespace UpdateMission

variable (q : UpdateMission)

/-- The columns to be set, validated. -/
def patch : Except PyError MissionPatch := do
  let environment ← ifGiven q.environment fun s =>
    checked s (isEnvironment s = true) "environment is malformed"
  let priority ← ifGiven q.priority fun n => checked n (0 ≤ n ∧ n ≤ 100) "priority must be 0..100"
  let objective ← ifGiven q.objective fun s => boundedText s "objective" 0 4000
  let summary ← ifGiven q.summary fun s => boundedText s "summary" 0 4000
  let impact ← ifGiven q.impact fun s => boundedText s "impact" 0 2000
  let risk ← ifGiven q.risk fun s => boundedText s "risk" 0 2000
  let currentStep ← ifGiven q.currentStep fun s => boundedText s "current_step" 0 1000
  let nextAction ← ifGiven q.nextAction fun s => boundedText s "next_action" 0 1000
  let currentModel ← ifGiven q.currentModel fun s => boundedText s "current_model" 0 200
  let planJson ← ifGiven q.plan (stringListJson "plan_json")
  let remainingStepsJson ← ifGiven q.remainingSteps (stringListJson "remaining_steps_json")
  let resourcesJson ← ifGiven q.resources (stringListJson "resources_json")
  let filesJson ← ifGiven q.files (stringListJson "files_json")
  let currentModelRole ← ifGiven q.currentModelRole fun s =>
    checked s (s ∈ modelRoles) "current_model_role is invalid"
  let maxIterations ← ifGiven q.maxIterations fun n =>
    checked n (1 ≤ n ∧ n ≤ 100) "max_iterations must be 1..100"
  let maxApiCalls ← ifGiven q.maxApiCalls fun n =>
    checked n (0 ≤ n ∧ n ≤ 100) "max_api_calls must be 0..100"
  let deadline ← ifGiven q.deadline (checkTimestamp "deadline")
  return ⟨environment, priority, objective, summary, impact, risk, currentStep, nextAction,
    currentModel, planJson, remainingStepsJson, resourcesJson, filesJson, currentModelRole,
    maxIterations, maxApiCalls, deadline⟩

def validate : Except PyError ((DateTime → UpdateArgs) × MissionPatch) := do
  let requestId ← validateCaller q.actorId q.requestId
  let p ← q.patch
  if p.values = [] then .error (invalidRequest "at least one mission field is required")
  else do
    let payloadJson ← jsonText (.obj p.values) "mission update"
    return (fun t => ⟨q.actorId, requestId, q.missionId, payloadJson, keys p.values, t⟩, p)

end UpdateMission

def updateMissionStateMethod (q : UpdateMission) : Method Value := do
  let (args, p) ← .ofExcept q.validate
  let t ← now
  let (v, replayed) ← transact (.updateMissionState (args t) p)
  .ofExcept (runtimePublic v (some replayed))

/-! ## Checkpoints -/

structure CreateCheckpoint where
  (actorId requestId missionId phase summary : String)
  (decisions completed pending evidence : List String)
  (modelRole modelName : Option String)

def CreateCheckpoint.validate (q : CreateCheckpoint) :
    Except PyError (String → DateTime → NewCheckpoint) := do
  let requestId ← validateCaller q.actorId q.requestId
  let phase ← boundedText q.phase "phase" 1 120
  let summary ← boundedText q.summary "summary" 1 4000
  let decisionsJson ← stringListJson "decisions" q.decisions
  let completedJson ← stringListJson "completed" q.completed
  let pendingList ← stringList q.pending "pending"
  let pendingJson ← listJson pendingList "pending"
  let evidenceJson ← stringListJson "evidence" q.evidence
  let modelRole ← ifGiven q.modelRole fun s =>
    checked s (s ∈ modelRoles) "model_role is invalid"
  let modelName ← ifGiven q.modelName fun s => boundedText s "model_name" 0 200
  return fun id t => ⟨id, q.actorId, requestId, q.missionId, phase, summary, decisionsJson,
    completedJson, pendingJson, pendingList, evidenceJson, modelRole, modelName, t⟩

def createCheckpointMethod (q : CreateCheckpoint) : Method Value := do
  let args ← .ofExcept q.validate
  let id ← newUuid
  let t ← now
  let (r, replayed) ← transact (.createCheckpoint (args id t))
  let r ← expect r .assertion
  .ofExcept (checkpointPublic r replayed)

/-! ## Records -/

structure AddRecord where
  (actorId requestId missionId kind content : String)
  evidence : List String
  incidentId : Option String
  confidence : Option Confidence
  modelTraceId : Option String

def AddRecord.validate (q : AddRecord) : Except PyError (String → DateTime → NewRecord) := do
  let requestId ← validateCaller q.actorId q.requestId
  let kind ← checked q.kind (q.kind ∈ recordKinds) "record kind is invalid"
  let content ← boundedText q.content "content" 1 8000
  let evidenceJson ← stringListJson "evidence" q.evidence
  let storedConfidence ← ifGiven q.confidence validateConfidence
  return fun id t => ⟨id, q.actorId, requestId, q.missionId, kind, content, evidenceJson,
    q.incidentId, q.confidence, storedConfidence, q.modelTraceId, t⟩

def addRecordMethod (q : AddRecord) : Method Value := do
  let args ← .ofExcept q.validate
  let id ← newUuid
  let t ← now
  let (r, replayed) ← transact (.addRecord (args id t))
  let r ← expect r .assertion
  .ofExcept (recordPublic r replayed)

/-! ## The work queue -/

structure ClaimNext where
  (actorId requestId : String)
  leaseSeconds : ℤ
  projectId : Option String

def ClaimNext.validate (b : Broker) (q : ClaimNext) : Except PyError (String × List String) := do
  let requestId ← validateCaller q.actorId q.requestId
  validateLease q.leaseSeconds
  let projects ← b.rbac.projectsForActor q.actorId
  match q.projectId with
  | none => return (requestId, projects)
  | some projectId => do
    b.rbac.requireProject q.actorId projectId
    return (requestId, [projectId])

def claimNextMethod (b : Broker) (q : ClaimNext) : Method Value := do
  let (requestId, projects) ← .ofExcept (q.validate b)
  if projects = [] then return .null
  else do
    let t ← now
    let leaseUntil ← expect (t.addSeconds q.leaseSeconds) .overflow
    let r ← transact (.claimNext ⟨q.actorId, requestId, projects, t, leaseUntil⟩)
    return r.getD .null

structure MissionLease where
  (actorId requestId missionId operation : String)
  leaseSeconds : ℤ

def LeaseOperation.ofText (s : String) : Option LeaseOperation :=
  [heartbeat, release].find? fun o => o.text = s

def MissionLease.validate (q : MissionLease) : Except PyError (DateTime → LeaseArgs) := do
  let requestId ← validateCaller q.actorId q.requestId
  match LeaseOperation.ofText q.operation with
  | none => .error (invalidRequest "lease operation is invalid")
  | some operation => do
    validateLease q.leaseSeconds
    return fun t => ⟨q.actorId, requestId, q.missionId, operation, q.leaseSeconds, t⟩

def missionLeaseMethod (q : MissionLease) : Method Value := do
  let args ← .ofExcept q.validate
  let t ← now
  transact (.missionLease (args t))

/-! ## Locks of resources -/

/-- The arguments of `_resource_lock_operation`. -/
structure ResourceLock where
  (actorId requestId missionId resourceId : String)
  operation : LockOperation
  leaseSeconds : ℤ

def ResourceLock.validate (q : ResourceLock) :
    Except PyError (DateTime → DateTime → LockArgs) := do
  let requestId ← validateCaller q.actorId q.requestId
  let resourceId ← checked q.resourceId (isResourceId q.resourceId = true)
    "resource_id is malformed"
  validateLease q.leaseSeconds
  return fun t leaseUntil =>
    ⟨q.actorId, requestId, q.missionId, resourceId, q.operation, t, leaseUntil⟩

def resourceLockMethod (q : ResourceLock) : Method Value := do
  let args ← .ofExcept q.validate
  let t ← now
  let leaseUntil ← expect (t.addSeconds q.leaseSeconds) .overflow
  transact (.resourceLock (args t leaseUntil))

/-- The arguments of `acquire_resource_lock` and `resource_lock_lease`, the operation as a
text. -/
structure LockLease where
  (actorId requestId missionId resourceId operation : String)
  leaseSeconds : ℤ

def acquireResourceLockMethod (q : LockLease) : Method Value :=
  resourceLockMethod ⟨q.actorId, q.requestId, q.missionId, q.resourceId, .acquire,
    q.leaseSeconds⟩

def LockOperation.ofLeaseText (s : String) : Option LockOperation :=
  [renew, release].find? fun o => o.text = s

def resourceLockLeaseMethod (q : LockLease) : Method Value :=
  match LockOperation.ofLeaseText q.operation with
  | none => .fail (invalidRequest "lock operation is invalid")
  | some operation => resourceLockMethod ⟨q.actorId, q.requestId, q.missionId, q.resourceId,
      operation, q.leaseSeconds⟩

/-! ## Model traces -/

/-- The arguments of `record_model_trace`. -/
structure RecordTrace where
  (actorId requestId missionId modelRole provider modelName reason outcome : String)
  confidence : Option Confidence
  (inputTokens outputTokens costMicrounits : ℤ)
  (parentTraceId finishedAt : Option String)

def nonNegative (field : String) (n : ℤ) : Except PyError ℤ :=
  checked n (0 ≤ n) (field ++ " must be non-negative")

def RecordTrace.validate (q : RecordTrace) : Except PyError (String → DateTime → NewTrace) := do
  let requestId ← validateCaller q.actorId q.requestId
  let modelRole ← checked q.modelRole (q.modelRole ∈ modelRoles) "model_role is invalid"
  let provider ← checked q.provider (isEnvironment q.provider = true) "provider is malformed"
  let modelName ← boundedText q.modelName "model_name" 1 200
  let reason ← boundedText q.reason "reason" 1 1000
  let outcome ← checked q.outcome (q.outcome ∈ traceOutcomes) "outcome is invalid"
  let storedConfidence ← ifGiven q.confidence validateConfidence
  let inputTokens ← nonNegative "input_tokens" q.inputTokens
  let outputTokens ← nonNegative "output_tokens" q.outputTokens
  let costMicrounits ← nonNegative "cost_microunits" q.costMicrounits
  let finishedAt ← ifGiven q.finishedAt (checkTimestamp "finished_at")
  return fun id t => ⟨id, q.actorId, requestId, q.missionId, modelRole, provider, modelName,
    reason, outcome, q.confidence, storedConfidence, inputTokens, outputTokens, costMicrounits,
    q.parentTraceId, finishedAt, t⟩

def recordModelTraceMethod (q : RecordTrace) : Method Value := do
  let args ← .ofExcept q.validate
  let id ← newUuid
  let t ← now
  let (r, replayed) ← transact (.recordModelTrace (args id t))
  let r ← expect r .assertion
  return tracePublic r replayed

/-! ## Details of incidents -/

/-- The arguments of `update_incident_details`. -/
structure UpdateIncident where
  (actorId requestId incidentId : String)
  (service resourceId environment symptoms impact : Option String)
  probableCauses : Option (List String)
  (confirmedCause resolution rollback : Option String)
  recommendations : Option (List String)
  versions : Option (List (String × String))

namespace UpdateIncident

variable (q : UpdateIncident)

/-- The columns to be set, validated. -/
def patch : Except PyError IncidentPatch := do
  let service ← ifGiven q.service fun s => boundedText s "service" 0 200
  let resourceId ← ifGiven q.resourceId fun s => boundedText s "resource_id" 0 192
  let symptoms ← ifGiven q.symptoms fun s => boundedText s "symptoms" 0 8000
  let impact ← ifGiven q.impact fun s => boundedText s "impact" 0 4000
  let confirmedCause ← ifGiven q.confirmedCause fun s => boundedText s "confirmed_cause" 0 4000
  let resolution ← ifGiven q.resolution fun s => boundedText s "resolution" 0 8000
  let rollback ← ifGiven q.rollback fun s => boundedText s "rollback" 0 4000
  let environment ← ifGiven q.environment fun s =>
    checked s (isEnvironment s = true) "environment is malformed"
  let probableCausesJson ← ifGiven q.probableCauses (stringListJson "probable_causes_json")
  let recommendationsJson ← ifGiven q.recommendations (stringListJson "recommendations_json")
  let versionsJson ← ifGiven q.versions fun vs =>
    jsonText (.obj (vs.map fun v => (v.1, .str v.2))) "versions"
  return ⟨service, resourceId, symptoms, impact, confirmedCause, resolution, rollback,
    environment, probableCausesJson, recommendationsJson, versionsJson⟩

def validate : Except PyError ((DateTime → UpdateArgs) × IncidentPatch) := do
  let requestId ← validateCaller q.actorId q.requestId
  let p ← q.patch
  if p.values = [] then .error (invalidRequest "at least one incident field is required")
  else do
    let payloadJson ← jsonText (.obj p.values) "incident update"
    return (fun t => ⟨q.actorId, requestId, q.incidentId, payloadJson, keys p.values, t⟩, p)

end UpdateIncident

def updateIncidentDetailsMethod (q : UpdateIncident) : Method Value := do
  let (args, p) ← .ofExcept q.validate
  let t ← now
  let (v, replayed) ← transact (.updateIncidentDetails (args t) p)
  let v ← expect v .assertion
  .ofExcept (incidentDetailsPublic v (some replayed))

/-! ## Artifacts of actions -/

/-- The arguments of `record_action_artifacts`. -/
structure RecordArtifacts where
  (actorId requestId actionId : String)
  (beforeDigest afterDigest targetVersion rollbackRef diffArtifact : Option String)
  healthcheck : Option Value

namespace RecordArtifacts

variable (q : RecordArtifacts)

def healthcheckJson : Value → Except PyError String
  | .obj kvs => jsonText (.obj kvs) "healthcheck"
  | _ => .error (invalidRequest "healthcheck must be an object")

/-- The columns to be set, validated. -/
def patch : Except PyError ArtifactsPatch := do
  let beforeDigest ← ifGiven q.beforeDigest fun s => boundedText s "before_digest" 1 128
  let afterDigest ← ifGiven q.afterDigest fun s => boundedText s "after_digest" 1 128
  let targetVersion ← ifGiven q.targetVersion fun s => boundedText s "target_version" 1 200
  let rollbackRef ← ifGiven q.rollbackRef fun s => boundedText s "rollback_ref" 1 1000
  let diffArtifact ← ifGiven q.diffArtifact fun s => boundedText s "diff_artifact" 1 1000
  let healthcheckJson ← ifGiven q.healthcheck healthcheckJson
  return ⟨beforeDigest, afterDigest, targetVersion, rollbackRef, diffArtifact, healthcheckJson⟩

def validate : Except PyError ((DateTime → UpdateArgs) × ArtifactsPatch) := do
  let requestId ← validateCaller q.actorId q.requestId
  let p ← q.patch
  if p.values = [] then .error (invalidRequest "at least one action artifact is required")
  else do
    let payloadJson ← jsonText (.obj p.values) "action artifacts"
    return (fun t => ⟨q.actorId, requestId, q.actionId, payloadJson, keys p.values, t⟩, p)

end RecordArtifacts

def recordActionArtifactsMethod (q : RecordArtifacts) : Method Value := do
  let (args, p) ← .ofExcept q.validate
  let t ← now
  let (r, replayed) ← transact (.recordActionArtifacts (args t) p)
  let r ← expect r .assertion
  .ofExcept (actionArtifactsPublic r replayed)

/-! ## Recovery after a restart -/

def recoverAfterRestartMethod (actorId : String) : Method Value := do
  .ofExcept (validateActor actorId)
  let t ← now
  let r ← transact (.recoverAfterRestart actorId t)
  return .obj [("interrupted_actions", .int r.interruptedActions),
    ("requeued_missions", .int r.requeuedMissions),
    ("expired_resource_locks", .int r.expiredResourceLocks)]

end OpsControlPlane
