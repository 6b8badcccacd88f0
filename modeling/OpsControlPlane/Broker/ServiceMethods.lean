import OpsControlPlane.Broker.Interface

/-!
# The methods of the service

The methods of `service.py` as programs over the operations of `Interface`, in the order in
which they validate, read, sample the clock and write. A denial that the source audits is
audited here (`auditing`). Results are the JSON objects that the methods return.
-/

set_option linter.unusedSectionVars false

namespace OpsControlPlane

open Text JsonText Regex Calendar Transaction

variable [Platform]

/-! ## Shared parts -/

/-- `try ... except BrokerError`, with the audit of the denial and the same exception. -/
def auditing {α : Type} (r : Except PyError α) (denial : String → DateTime → Denial) : Method α :=
  match r with
  | .ok a => pure a
  | .error (.broker code message status details) => do
    let t ← now
    transact (.auditDenial (denial code t))
    .fail (.broker code message status details)
  | .error e => .fail e

/-- `project_id` has to match its pattern. -/
def validateProject (projectId : String) : Except PyError Unit :=
  if isProjectId projectId then .ok ()
  else .error (.invalid "invalid_request" "project_id is malformed")

def missionDict (r : MissionRow) : Value :=
  .obj [("id", .str r.id), ("request_id", .str r.requestId), ("project_id", .str r.projectId),
    ("title", .str r.title), ("status", .str r.status.text), ("created_by", .str r.createdBy),
    ("created_at", .str r.createdAt), ("updated_at", .str r.updatedAt)]

def incidentDict (r : IncidentRow) : Value :=
  .obj [("id", .str r.id), ("request_id", .str r.requestId), ("project_id", .str r.projectId),
    ("title", .str r.title), ("severity", .str r.severity), ("status", .str r.status.text),
    ("created_by", .str r.createdBy), ("created_at", .str r.createdAt),
    ("updated_at", .str r.updatedAt)]

def approvalDict (r : ApprovalRow) : Value :=
  .obj [("id", .str r.id), ("request_id", .str r.requestId), ("action_id", .str r.actionId),
    ("actor_id", .str r.actorId), ("decision", .str r.decision.text), ("source", .str r.source),
    ("source_event_id", optionalText r.sourceEventId), ("reason", .str r.reason),
    ("created_at", .str r.createdAt), ("expires_at", .str r.expiresAt)]

def missionPublic (r : MissionRow) : Value :=
  .obj [("id", .str (clip 36 r.id)), ("project_id", .str (clip 64 r.projectId)),
    ("title", .str (clip 240 r.title)), ("status", .str (clip 16 r.status.text)),
    ("created_at", .str (clip 40 r.createdAt)), ("updated_at", .str (clip 40 r.updatedAt))]

/-! ## Creation -/

structure CreateMission where
  (actorId requestId projectId title : String)

namespace CreateMission

variable (q : CreateMission)

def validate : Except PyError (String × String) := do
  validateActor q.actorId
  let requestId ← validateRequestId q.requestId
  validateProject q.projectId
  let title ← boundedText q.title "title" 1 240
  return (requestId, title)

def denial (requestId code : String) (t : DateTime) : Denial where
  actorId := q.actorId
  eventType := "mission.denied"
  entityType := "mission"
  entityId := requestId
  code := code
  requestId := requestId
  now := t

def same (title : String) (r : MissionRow) : Prop :=
  r.createdBy = q.actorId ∧ r.projectId = q.projectId ∧ r.title = title

instance (title : String) (r : MissionRow) : Decidable (q.same title r) :=
  inferInstanceAs (Decidable (_ ∧ _))

end CreateMission

def createMissionMethod (b : Broker) (q : CreateMission) : Method Value := do
  let (requestId, title) ← .ofExcept q.validate
  auditing (b.rbac.requireProject q.actorId q.projectId) (q.denial requestId)
  let db ← snapshot
  match row MissionRow.requestId requestId db.missions with
  | some existing =>
    demand (q.same title existing) (.conflict "request_id was already used for a different mission")
    return missionDict existing
  | none =>
    let id ← newUuid
    let t ← now
    let r ← transact (.createMission ⟨id, requestId, q.projectId, title, q.actorId, t⟩)
    let r ← expect r .assertion
    return missionDict r

structure CreateIncident where
  (actorId requestId projectId title severity : String)

namespace CreateIncident

variable (q : CreateIncident)

def validateSeverity (severity : String) : Except PyError Unit :=
  if severity ∈ ["info", "warning", "critical"] then .ok ()
  else .error (.invalid "invalid_request" "severity is invalid")

def validate : Except PyError (String × String) := do
  validateActor q.actorId
  let requestId ← validateRequestId q.requestId
  validateProject q.projectId
  validateSeverity q.severity
  let title ← boundedText q.title "title" 1 240
  return (requestId, title)

def denial (requestId code : String) (t : DateTime) : Denial where
  actorId := q.actorId
  eventType := "incident.denied"
  entityType := "incident"
  entityId := requestId
  code := code
  requestId := requestId
  now := t

def same (title : String) (r : IncidentRow) : Prop :=
  r.createdBy = q.actorId ∧ r.projectId = q.projectId ∧ r.title = title ∧
    r.severity = q.severity

instance (title : String) (r : IncidentRow) : Decidable (q.same title r) :=
  inferInstanceAs (Decidable (_ ∧ _))

end CreateIncident

def createIncidentMethod (b : Broker) (q : CreateIncident) : Method Value := do
  let (requestId, title) ← .ofExcept q.validate
  auditing (b.rbac.requireProject q.actorId q.projectId) (q.denial requestId)
  let db ← snapshot
  match row IncidentRow.requestId requestId db.incidents with
  | some existing =>
    demand (q.same title existing)
      (.conflict "request_id was already used for a different incident")
    return incidentDict existing
  | none =>
    let id ← newUuid
    let t ← now
    let r ← transact
      (.createIncident ⟨id, requestId, q.projectId, title, q.severity, q.actorId, t⟩)
    let r ← expect r .assertion
    return incidentDict r

/-! ## Status changes -/

def MissionStatus.ofText (s : String) : Option MissionStatus :=
  [opened, paused, completed].find? fun t => t.text = s

def IncidentStatus.ofText (s : String) : Option IncidentStatus :=
  [opened, monitoring, resolved].find? fun t => t.text = s

/-- The arguments of `set_mission_status` and `set_incident_status`. -/
structure SetStatus where
  (actorId requestId entityId status : String)

def SetStatus.validate {σ : Type} (q : SetStatus) (entityType : String)
    (ofText : String → Option σ) : Except PyError (StatusChange σ) := do
  validateActor q.actorId
  let requestId ← validateRequestId q.requestId
  match ofText q.status with
  | some status => .ok ⟨q.actorId, requestId, q.entityId, status⟩
  | none => .error (.invalid "invalid_request" ("invalid " ++ entityType ++ " status"))

def SetStatus.denial (q : SetStatus) (entityType requestId code : String) (t : DateTime) :
    Denial where
  actorId := q.actorId
  eventType := entityType ++ ".status_denied"
  entityType := entityType
  entityId := q.entityId
  code := code
  requestId := requestId
  now := t

def statusChangePublic {σ : Type} [DecidableEq σ] (text : σ → String) (entityKey : String)
    (r : StatusChangeRow σ) (current : σ) (replayed : Bool) : Value :=
  .obj [("request_id", .str (clip 36 r.requestId)), (entityKey, .str (clip 36 r.entityId)),
    ("previous_status", .str (clip 16 (text r.previousStatus))),
    ("status", .str (clip 16 (text r.newStatus))),
    ("current_status", .str (clip 16 (text current))),
    ("changed", .bool (clip 16 (text r.previousStatus) ≠ clip 16 (text r.newStatus))),
    ("replayed", .bool replayed), ("updated_at", .str (clip 40 r.createdAt))]

/-- The end of `_set_entity_status`. -/
def statusReplyPublic {σ : Type} [DecidableEq σ] (text : σ → String) (entityKey : String)
    (r : StatusReply σ) : Except PyError Value :=
  match r.change with
  | some change => .ok (statusChangePublic text entityKey change r.current r.replayed)
  | none => .error .assertion

def setMissionStatusMethod (b : Broker) (q : SetStatus) : Method Value := do
  let a ← .ofExcept (q.validate "mission" MissionStatus.ofText)
  let db ← snapshot
  let entity ← expect (row MissionRow.id q.entityId db.missions) (.notFound "mission")
  auditing (b.rbac.requireLifecycle q.actorId entity.projectId "mission.status.write")
    (q.denial "mission" a.requestId)
  let r ← transact (.setMissionStatus a)
  .ofExcept (statusReplyPublic MissionStatus.text "mission_id" r)

def setIncidentStatusMethod (b : Broker) (q : SetStatus) : Method Value := do
  let a ← .ofExcept (q.validate "incident" IncidentStatus.ofText)
  let db ← snapshot
  let entity ← expect (row IncidentRow.id q.entityId db.incidents) (.notFound "incident")
  auditing (b.rbac.requireLifecycle q.actorId entity.projectId "incident.status.write")
    (q.denial "incident" a.requestId)
  let r ← transact (.setIncidentStatus a)
  .ofExcept (statusReplyPublic IncidentStatus.text "incident_id" r)

/-! ## Execution -/

def actionPublic (r : ActionRow) : Except PyError Value := do
  let result ← match r.resultJson with
    | some s => if s = "" then .ok .null else loadsJson s
    | none => .ok .null
  let parameters ← loadsJson r.parametersJson
  return .obj [("id", .str r.id), ("request_id", .str r.requestId),
    ("mission_id", optionalText r.missionId), ("incident_id", optionalText r.incidentId),
    ("project_id", .str r.projectId), ("runbook_id", .str r.runbookId),
    ("runbook_version", .int r.runbookVersion), ("action_class", .str r.actionClass.text),
    ("requested_by", .str r.requestedBy), ("reason", .str r.reason), ("parameters", parameters),
    ("status", .str r.status.text), ("approval_deadline", optionalText r.approvalDeadline),
    ("result", result), ("created_at", .str r.createdAt), ("updated_at", .str r.updatedAt)]

def argvJson (argv : Option (List String)) : Option String :=
  argv.map fun a => canonicalJson (.arr (a.map .str))

/-- The arguments that the stored parameters of an action give under its runbook. -/
def storedArgv (runbook : Runbook) (r : ActionRow) : Except PyError (Option (List String)) := do
  let stored ← loadsJson r.parametersJson
  let validated ← runbook.validateParameters stored
  runbook.renderArgv validated

/-- The refusal of an action that is not what its runbook makes of it. -/
def integrityMismatch : PyError :=
  .conflict "stored action no longer matches its runbook"

/-- The arguments of an action that is what its runbook makes of it. A refusal of the runbook
and a failure to read the stored parameters are one refusal. -/
def checkedArgv (runbook : Runbook) (r : ActionRow) : Except PyError (Option (List String)) :=
  match storedArgv runbook r with
  | .ok argv =>
    if runbook.version = r.runbookVersion ∧ runbook.project = r.projectId ∧
        runbook.actionClass = r.actionClass ∧ argvJson argv = r.argvJson then .ok argv
    else .error integrityMismatch
  | .error (.broker _ _ _ _) => .error integrityMismatch
  | .error .typeError => .error integrityMismatch
  | .error .valueError => .error integrityMismatch
  | .error e => .error e

/-- `decision = 'approve'`, the latest one first. -/
def latestApproval (actionId : String) (db : Db) : Option ApprovalRow :=
  ((db.approvals.filter fun r => r.actionId = actionId ∧ r.decision = .approve).insertionSort
    fun r s => s.createdAt ≤ r.createdAt).head?

structure ExecuteAction where
  (actorId actionId : String)

namespace ExecuteAction

variable (q : ExecuteAction)

def denial (r : ActionRow) (code : String) (t : DateTime) : Denial where
  actorId := q.actorId
  eventType := "action.execution_denied"
  entityType := "action"
  entityId := q.actionId
  code := code
  requestId := r.requestId
  now := t

def requireRequester (r : ActionRow) : Except PyError Unit :=
  if q.actorId = r.requestedBy then .ok ()
  else .error (.authorizationDenied "only the requesting actor may execute this action")

/-- The refusal of a status in which an action is not executed and that has no write of its
own. -/
def refusal (r : ActionRow) : Option PyError :=
  match r.status with
  | .rejected => some (.authorizationDenied "the action was rejected")
  | .approvalExpired => some (.approvalRequired "the human approval expired")
  | .budgetExhausted => some (.budgetExceeded q.actionId)
  | .running => some (.conflict "action is already running")
  | _ => none

def checkPending (r : ActionRow) : Method Value := do
  let t ← now
  match r.approvalDeadline with
  | none => .fail (.approvalRequired "a valid human approval is required")
  | some deadline =>
    let deadline ← expect (parseTimestamp deadline) .valueError
    if deadline ≤ t then
      transact (.expirePending ⟨q.actionId, q.actorId, t⟩)
      .fail (.approvalRequired "the human approval request expired")
    else .fail (.approvalRequired "a valid human approval is required")

def checkApproval : Method Unit := do
  let t ← now
  let db ← snapshot
  let approval ← expect (latestApproval q.actionId db)
    (.approvalRequired "a valid human approval is required")
  let expiresAt ← expect (parseTimestamp approval.expiresAt) .valueError
  if expiresAt ≤ t then
    transact (.expireApproved ⟨q.actionId, q.actorId, t⟩)
    .fail (.approvalRequired "the human approval expired")
  else pure ()

/-- `ExecutionResult(-1, "", "executor failed", False, False)`. -/
def executorFailed : ExecutionResult :=
  ⟨-1, "", "executor failed", false, false⟩

/-- The start, the command and the end of an execution. -/
def launch (runbook : Runbook) (argv : Option (List String)) : Method Value := do
  let t ← now
  transact (.startAction ⟨q.actionId, q.actorId, t⟩ runbook.id)
  let outcome ← execute q.actionId (argv.getD []) runbook.timeoutSeconds runbook.outputMaxBytes
  let result := (outcome.getD executorFailed).bounded runbook.outputMaxBytes
  let finishedAt ← now
  let finished ← transact (.finishAction ⟨q.actionId, q.actorId, finishedAt⟩ result)
  let finished ← expect finished .assertion
  .ofExcept (actionPublic finished)

/-- The check that comes before a start. -/
def clear (r : ActionRow) : Method Unit :=
  if r.actionClass = .c then q.checkApproval else pure ()

def proceed (r : ActionRow) (runbook : Runbook) (argv : Option (List String)) : Method Value :=
  if r.status = .pendingApproval then q.checkPending r
  else
    match q.refusal r with
    | some e => .fail e
    | none => do
      q.clear r
      q.launch runbook argv

end ExecuteAction

/-- `except AuthorizationDenied`, `except (BrokerError, ...)`: the audit of a denial under a
code of the caller. -/
def auditingAs {α : Type} (r : Except PyError α) (denial : DateTime → Denial) : Method α :=
  auditing r fun _ => denial

def executeActionMethod (b : Broker) (q : ExecuteAction) : Method Value := do
  .ofExcept (validateActor q.actorId)
  let db ← snapshot
  let r ← expect (row ActionRow.id q.actionId db.actions) (.notFound "action")
  auditingAs (q.requireRequester r) (q.denial r "actor_mismatch")
  let runbook ← .ofExcept (b.registry.get r.runbookId)
  auditing (b.rbac.requireRunbook q.actorId r.projectId r.runbookId r.actionClass) (q.denial r)
  if r.status = .succeeded ∨ r.status = .failed then .ofExcept (actionPublic r)
  else do
    let argv ← auditingAs (checkedArgv runbook r) (q.denial r "action_integrity_mismatch")
    q.proceed r runbook argv

/-! ## Requests of actions -/

structure RequestAction where
  (actorId requestId runbookId : String)
  parameters : Value
  reason : String
  (incidentId missionId : Option String)

/-- What `request_action` has validated. -/
structure ActionPlan where
  runbook : Runbook
  validated : List (String × Value)
  argv : Option (List String)

namespace RequestAction

variable (q : RequestAction)

def validate : Except PyError (String × String) := do
  validateActor q.actorId
  let requestId ← validateRequestId q.requestId
  let reason ← boundedText q.reason "reason" 3 1000
  return (requestId, reason)

def plan (b : Broker) : Except PyError ActionPlan := do
  let runbook ← b.registry.get q.runbookId
  let validated ← runbook.validateParameters q.parameters
  b.rbac.requireRunbook q.actorId runbook.project runbook.id runbook.actionClass
  let argv ← runbook.renderArgv validated
  return ⟨runbook, validated, argv⟩

def denial (requestId code : String) (t : DateTime) : Denial where
  actorId := q.actorId
  eventType := "action.denied"
  entityType := "action_request"
  entityId := requestId
  code := code
  requestId := requestId
  now := t

def incidentMismatch : PyError :=
  .invalid "invalid_parameters" "incident_id does not match the runbook parameter"

def incident (validated : List (String × Value)) : Except PyError (Option String) :=
  match validated.lookup "incident_id", q.incidentId with
  | none, incidentId => .ok incidentId
  | some v, none => .ok (some (parameterText v))
  | some v, some incidentId =>
    match v with
    | .str s =>
      if s = incidentId then .ok (some incidentId) else .error incidentMismatch
    | _ => .error incidentMismatch

/-- `_validate_linked_entities`. -/
def checkLinked (projectId : String) (incidentId : Option String) (db : Db) :
    Except PyError Unit := do
  match incidentId with
  | none => pure ()
  | some id =>
    match row IncidentRow.id id db.incidents with
    | none => .error (.notFound "incident")
    | some i =>
      if i.projectId = projectId then pure ()
      else .error (.conflict "incident belongs to a different project")
  match q.missionId with
  | none => pure ()
  | some id =>
    match row MissionRow.id id db.missions with
    | none => .error (.notFound "mission")
    | some m =>
      if m.projectId = projectId then pure ()
      else .error (.conflict "mission belongs to a different project")

def same (p : ActionPlan) (reason : String) (incidentId : Option String) (r : ActionRow) : Prop :=
  r.requestedBy = q.actorId ∧ r.runbookId = p.runbook.id ∧
    r.runbookVersion = p.runbook.version ∧ r.projectId = p.runbook.project ∧
    r.reason = reason ∧ r.parametersJson = canonicalJson (scrubPayload (.obj p.validated)) ∧
    r.argvJson = OpsControlPlane.argvJson p.argv ∧ r.incidentId = incidentId ∧
    r.missionId = q.missionId

instance (p : ActionPlan) (reason : String) (incidentId : Option String) (r : ActionRow) :
    Decidable (q.same p reason incidentId r) :=
  inferInstanceAs (Decidable (_ ∧ _))

def opening (policy : ActionPolicy) (runbook : Runbook) (t : DateTime) :
    Except PyError (ActionStatus × Option String) :=
  if runbook.actionClass = .c then
    match t.addSeconds policy.approvalTtlSeconds with
    | some deadline => .ok (.pendingApproval, some (isoformat deadline))
    | none => .error .overflow
  else .ok (.authorized, none)

def newAction (p : ActionPlan) (requestId reason : String) (incidentId : Option String)
    (id : String) (t : DateTime) (status : ActionStatus) (deadline budgetKey : Option String) :
    NewAction where
  id := id
  requestId := requestId
  missionId := q.missionId
  incidentId := incidentId
  runbook := p.runbook
  actorId := q.actorId
  reason := reason
  parametersJson := canonicalJson (scrubPayload (.obj p.validated))
  argvJson := OpsControlPlane.argvJson p.argv
  budgetKey := budgetKey
  status := status
  approvalDeadline := deadline
  now := t

/-- What follows the insertion: the execution, unless the action needs an approval. -/
def follow (b : Broker) (p : ActionPlan) (id : String) (r : ActionRow) : Method Value :=
  if p.runbook.actionClass = .c then .ofExcept (actionPublic r)
  else executeActionMethod b ⟨q.actorId, id⟩

def create (b : Broker) (p : ActionPlan) (requestId reason : String)
    (incidentId : Option String) : Method Value := do
  let id ← newUuid
  let t ← now
  let (status, deadline) ← .ofExcept (opening b.policy p.runbook t)
  let budgetKey ← .ofExcept (p.runbook.budgetKey p.validated)
  let (exhausted, r) ← transact (.insertAction
    (q.newAction p requestId reason incidentId id t status deadline budgetKey))
  demand (exhausted = false) (.budgetExceeded id)
  let r ← expect r .assertion
  q.follow b p id r

end RequestAction

def requestActionMethod (b : Broker) (q : RequestAction) : Method Value := do
  let (requestId, reason) ← .ofExcept q.validate
  let p ← auditing (q.plan b) (q.denial requestId)
  let incidentId ← .ofExcept (q.incident p.validated)
  let linked ← snapshot
  auditing (q.checkLinked p.runbook.project incidentId linked) (q.denial requestId)
  let db ← snapshot
  match row ActionRow.requestId requestId db.actions with
  | some existing =>
    demand (q.same p reason incidentId existing)
      (.conflict "request_id was already used for a different action")
    demand (existing.status ≠ .budgetExhausted) (.budgetExceeded existing.id)
    .ofExcept (actionPublic existing)
  | none => q.create b p requestId reason incidentId

/-! ## Decisions -/

def isSource (s : String) : Bool :=
  leads (fun c => c.isLower) (fun c => lowerAlnum c || c = '.' || c = '_' || c = '-') 0 31
    (toChars s)

def Decision.ofText (s : String) : Option Decision :=
  [approve, reject].find? fun d => d.text = s

structure DecideApproval where
  (actorId requestId actionId decision source : String)
  sourceEventId : Option String
  reason : String

namespace DecideApproval

variable (q : DecideApproval)

def validateEvent : Option String → Except PyError (Option String)
  | none => .ok none
  | some e => do
    let e ← boundedText e "source_event_id" 1 200
    return some e

def validate : Except PyError (DateTime → String → DecideArgs) := do
  validateActor q.actorId
  let requestId ← validateRequestId q.requestId
  match Decision.ofText q.decision with
  | none => .error (.invalid "invalid_request" "decision must be approve or reject")
  | some decision =>
    if ¬isSource q.source then .error (.invalid "invalid_request" "source is malformed")
    else do
      let sourceEventId ← validateEvent q.sourceEventId
      if q.source = "zulip" ∧ sourceEventId = none then
        .error (.invalid "invalid_request" "source_event_id is required for Zulip approvals")
      else do
        let reason ← boundedText q.reason "reason" 1 500
        return fun t id => ⟨id, q.actorId, requestId, q.actionId, decision, q.source,
          sourceEventId, reason, t⟩

end DecideApproval

def decideApprovalMethod (q : DecideApproval) : Method Value := do
  let args ← .ofExcept q.validate
  let t ← now
  let id ← newUuid
  let r ← transact (.decideApproval (args t id))
  match r with
  | .duplicate prior => return approvalDict prior
  | .denied e => .fail e
  | .expired => .fail (.approvalRequired "the approval request expired")
  | .decided r => do
    let r ← expect r .assertion
    return approvalDict r

end OpsControlPlane
