import OpsControlPlane.Broker.Service

/-!
# The transactions of mission control: context

What the methods of `mission_control.py` that keep the context of a mission do inside a
transaction: the fields of the context, checkpoints, records and model traces. As in
`Service`, the values a method computes before its transaction are the arguments, and each
transaction is followed by its rule.
-/

namespace OpsControlPlane

open JsonText Calendar Transaction

variable [Platform]

/-! ## JSON columns -/

def loadsJson (s : String) : Except PyError Value :=
  match loads s with
  | some v => .ok v
  | none => .error .valueError

/-- `_json`: scrubbed canonical JSON of a bounded size. -/
def jsonText (value : Value) (field : String) : Except PyError String :=
  let encoded := canonicalJson (scrubPayload value)
  if 32768 < encoded.utf8ByteSize then
    .error (.invalid "invalid_request" (field ++ " is too large"))
  else .ok encoded

/-- `result["replayed"] = True`. -/
def markReplayed : Value → Except PyError Value
  | .obj kvs => .ok (.obj (setKey "replayed" (.bool true) kvs))
  | _ => .error .typeError

def optionalText : Option String → Value
  | some s => .str s
  | none => .null

theorem wf_optionalText (s : Option String) : Wf (optionalText s) := by
  cases s <;> trivial

/-- The keys of a dict behind its other keys, if there is a flag. -/
def replayedField : Option Bool → List (String × Value)
  | some b => [("replayed", .bool b)]
  | none => []

/-! ## Requests that were used before -/

/-- How a transaction ends that a request identifies: with the row of the request, which
has to be the same, or with the rule of a new request. -/
def Keyed {R α : Type} (found : Option R) (same : R → Prop) (again : R → α → Prop)
    (new : α → Conn → Prop) (c : Conn) (r : α) (c' : Conn) : Prop :=
  (∃ prior, found = some prior ∧ same prior ∧ again prior r ∧ c' = c) ∨ found = none ∧ new r c'

/-- How such a transaction fails if the request was used before: the row is not the same,
or its answer cannot be given again. -/
def Refuses {R : Type} (found : Option R) (same : R → Prop) (message : String)
    (fails : R → PyError → Prop) (e : PyError) : Prop :=
  ∀ prior, found = some prior →
    ¬same prior ∧ e = .conflict message ∨ same prior ∧ fails prior e

variable {R α : Type}

theorem refuses_none (same : R → Prop) (message : String) (fails : R → PyError → Prop)
    (e : PyError) : Refuses none same message fails e := by
  rintro prior h
  cases h

variable {x : TxEnv} {c : Conn}

theorem wp_replay {found : Option R} {same : R → Prop} [DecidablePred same] {A : R → α → Prop}
    {N : α → Conn → Prop} {message : String} {prior : R} {F : R → PyError → Prop} {m : BrokerTxn α}
    (hf : found = some prior) (hm : m.wp x c (fun r c' => A prior r ∧ c' = c) (F prior)) :
    Txn.wp (do Txn.demand (same prior) (.conflict message); m) x c
      (Keyed found same A N c) (Refuses found same message F) := by
  simp only [Txn.wp_bind, Txn.wp_demand]
  refine ⟨fun hs => hm.mono (fun r c' hr => Or.inl ⟨prior, hf, hs, hr⟩) fun e he p hp => ?_,
    fun hs p hp => ?_⟩
  · obtain rfl := Option.some.inj (hf.symm.trans hp)
    exact Or.inr ⟨hs, he⟩
  · obtain rfl := Option.some.inj (hf.symm.trans hp)
    exact Or.inl ⟨hs, rfl⟩

/-! ## Missions with their runtime -/

/-- A row of `missions` joined with its row of `mission_runtime`. A column that both have
is the one of `missions`. -/
structure MissionView where
  mission : MissionRow
  runtime : RuntimeRow

/-- The join of `missions` and `mission_runtime`. -/
def missionViews (db : Db) : List MissionView :=
  db.missions.filterMap fun m =>
    (row RuntimeRow.missionId m.id db.missionRuntime).map fun r => ⟨m, r⟩

def missionView (id : String) (db : Db) : Option MissionView :=
  (row MissionRow.id id db.missions).bind fun m =>
    (row RuntimeRow.missionId id db.missionRuntime).map fun r => ⟨m, r⟩

def fetchMission (id : String) : BrokerTxn MissionView := do
  let v ← select (missionView id)
  Txn.expect v (.notFound "mission")

@[simp] theorem wp_fetchMission {Q : MissionView → Conn → Prop} {E : PyError → Prop} (id : String) :
    (fetchMission id).wp x c Q E ↔
      (∀ v, missionView id c.db = some v → Q v c) ∧
        (missionView id c.db = none → E (.notFound "mission")) := by
  simp [fetchMission]

def MayDo (rbac : RBACPolicy) (actorId missionId capability : String) (c : Conn)
    (v : MissionView) : Prop :=
  missionView missionId c.db = some v ∧
    rbac.requireLifecycle actorId v.mission.projectId capability = .ok ()

/-- The mission of a transaction, and the leave of its actor, come first. -/
theorem wp_mayDo {rbac : RBACPolicy} {actorId missionId capability : String}
    {f : MissionView → BrokerTxn α} {Q : MissionView → α → Conn → Prop}
    {E : MissionView → PyError → Prop}
    (hf : ∀ v, MayDo rbac actorId missionId capability c v → (f v).wp x c (Q v) (E v)) : Txn.wp (do
      let v ← fetchMission missionId
      Txn.ofExcept (rbac.requireLifecycle actorId v.mission.projectId capability)
      f v) x c
      (fun r c' => ∃ v, MayDo rbac actorId missionId capability c v ∧ Q v r c')
      fun e => ∀ v, MayDo rbac actorId missionId capability c v → E v e := by
  simp only [Txn.wp_bind, wp_fetchMission, Txn.wp_ofExcept]
  refine ⟨fun v hv => ⟨fun _ hauth => ?_, fun e he w hw => ?_⟩, fun hnone w hw => ?_⟩
  · refine (hf v ⟨hv, hauth⟩).mono (fun r c' hr => ⟨v, ⟨hv, hauth⟩, hr⟩) fun e he w hw => ?_
    obtain rfl := Option.some.inj (hv.symm.trans hw.1)
    exact he
  · obtain rfl := Option.some.inj (hv.symm.trans hw.1)
    cases he.symm.trans hw.2
  · cases hnone.symm.trans hw.1

def runtimePublic (v : MissionView) (replayed : Option Bool) : Except PyError Value := do
  let plan ← loadsJson v.runtime.planJson
  let remainingSteps ← loadsJson v.runtime.remainingStepsJson
  let resources ← loadsJson v.runtime.resourcesJson
  let files ← loadsJson v.runtime.filesJson
  return .obj ([
    ("id", .str (clip 36 v.mission.id)),
    ("project_id", .str (clip 64 v.mission.projectId)),
    ("title", .str (clip 240 v.mission.title)),
    ("status", .str (clip 16 v.mission.status.text)),
    ("environment", .str (clip 64 v.runtime.environment)),
    ("priority", .int v.runtime.priority),
    ("queue_state", .str (clip 16 v.runtime.queueState.text)),
    ("objective", .str (clip 4000 v.runtime.objective)),
    ("summary", .str (clip 4000 v.runtime.summary)),
    ("impact", .str (clip 2000 v.runtime.impact)),
    ("risk", .str (clip 2000 v.runtime.risk)),
    ("plan", plan),
    ("current_step", .str (clip 1000 v.runtime.currentStep)),
    ("remaining_steps", remainingSteps),
    ("resources", resources),
    ("files", files),
    ("next_action", .str (clip 1000 v.runtime.nextAction)),
    ("current_model_role", optionalText v.runtime.currentModelRole),
    ("current_model", optionalText v.runtime.currentModel),
    ("iteration_count", .int v.runtime.iterationCount),
    ("max_iterations", .int v.runtime.maxIterations),
    ("api_call_count", .int v.runtime.apiCallCount),
    ("max_api_calls", .int v.runtime.maxApiCalls),
    ("deadline", optionalText v.runtime.deadline),
    ("claimed_by", optionalText v.runtime.claimedBy),
    ("lease_until", optionalText v.runtime.leaseUntil),
    ("created_at", .str (clip 40 v.mission.createdAt)),
    ("updated_at", .str (clip 40 v.mission.updatedAt))] ++ replayedField replayed)

/-! ## Mission context -/

/-- The columns that `update_mission_state` sets, each with its validated value. -/
structure MissionPatch where
  environment : Option String
  priority : Option ℤ
  (objective summary impact risk currentStep nextAction currentModel planJson : Option String)
  (remainingStepsJson resourcesJson filesJson currentModelRole : Option String)
  (maxIterations maxApiCalls : Option ℤ)
  deadline : Option String

def textItem (key : String) : Option String → List (String × Value)
  | some s => [(key, .str s)]
  | none => []

/-- A key with the integer of a column that is set. -/
def intItem (key : String) : Option ℤ → List (String × Value)
  | some n => [(key, .int n)]
  | none => []

def MissionPatch.values (p : MissionPatch) : List (String × Value) :=
  textItem "environment" p.environment ++ intItem "priority" p.priority ++
    textItem "objective" p.objective ++ textItem "summary" p.summary ++
    textItem "impact" p.impact ++ textItem "risk" p.risk ++
    textItem "current_step" p.currentStep ++ textItem "next_action" p.nextAction ++
    textItem "current_model" p.currentModel ++ textItem "plan_json" p.planJson ++
    textItem "remaining_steps_json" p.remainingStepsJson ++
    textItem "resources_json" p.resourcesJson ++ textItem "files_json" p.filesJson ++
    textItem "current_model_role" p.currentModelRole ++
    intItem "max_iterations" p.maxIterations ++ intItem "max_api_calls" p.maxApiCalls ++
    textItem "deadline" p.deadline

def MissionPatch.apply (p : MissionPatch) (now : String) (r : RuntimeRow) : RuntimeRow :=
  { r with
    environment := p.environment.getD r.environment
    priority := p.priority.getD r.priority
    objective := p.objective.getD r.objective
    summary := p.summary.getD r.summary
    impact := p.impact.getD r.impact
    risk := p.risk.getD r.risk
    planJson := p.planJson.getD r.planJson
    currentStep := p.currentStep.getD r.currentStep
    remainingStepsJson := p.remainingStepsJson.getD r.remainingStepsJson
    resourcesJson := p.resourcesJson.getD r.resourcesJson
    filesJson := p.filesJson.getD r.filesJson
    nextAction := p.nextAction.getD r.nextAction
    currentModelRole := p.currentModelRole.or r.currentModelRole
    currentModel := p.currentModel.or r.currentModel
    maxIterations := p.maxIterations.getD r.maxIterations
    maxApiCalls := p.maxApiCalls.getD r.maxApiCalls
    deadline := p.deadline.or r.deadline
    updatedAt := now }

/-- An update of an entity that is identified by its payload: the arguments of the
transactions of `update_mission_state`, `update_incident_details` and
`record_action_artifacts` that they share. -/
structure UpdateArgs where
  (actorId requestId entityId payloadJson : String)
  fields : List String
  now : DateTime

namespace UpdateArgs

variable (a : UpdateArgs)

def row : UpdateRow where
  requestId := a.requestId
  entityId := a.entityId
  actorId := a.actorId
  payloadJson := a.payloadJson
  createdAt := isoformat a.now

def same (r : UpdateRow) : Prop :=
  r.entityId = a.entityId ∧ r.actorId = a.actorId ∧ r.payloadJson = a.payloadJson

instance (r : UpdateRow) : Decidable (a.same r) :=
  inferInstanceAs (Decidable (_ ∧ _))

theorem wfElems_texts (l : List String) : WfElems (l.map (Json.str (F := Flt))) := by
  induction l with
  | nil => trivial
  | cons s l ih => exact ⟨trivial, ih⟩

def draft (eventType entityType : String) : AuditDraft where
  occurredAt := isoformat a.now
  eventType := eventType
  actorId := a.actorId
  entityType := entityType
  entityId := a.entityId
  payload := [("request_id", .str a.requestId),
    ("fields", .arr ((sortedTexts a.fields).map .str))]
  wf := by simp [Wf, WfPairs, keys, wfElems_texts]

end UpdateArgs

/-- The transaction of `update_mission_state`: the mission, and whether the update is a
replay. -/
def updateMissionState (rbac : RBACPolicy) (a : UpdateArgs) (p : MissionPatch) :
    BrokerTxn (MissionView × Bool) := do
  let v ← fetchMission a.entityId
  Txn.ofExcept (rbac.requireLifecycle a.actorId v.mission.projectId "mission.context.write")
  let prior ← select fun db => row UpdateRow.requestId a.requestId db.missionUpdates
  match prior with
  | some prior =>
    Txn.demand (a.same prior) (.conflict "request_id was already used for another mission update")
    return (v, true)
  | none =>
    write fun db => db.updateRuntime a.entityId (p.apply (isoformat a.now))
    write fun db => { db with missionUpdates := db.missionUpdates ++ [a.row] }
    let _ ← appendEvent (a.draft "mission.context_updated" "mission")
    let updated ← fetchMission a.entityId
    return (updated, false)

def Db.updateContext (db : Db) (a : UpdateArgs) (p : MissionPatch) : Db :=
  { db.updateRuntime a.entityId (p.apply (isoformat a.now)) with
    missionUpdates := db.missionUpdates ++ [a.row] }

theorem updateMissionState_spec (rbac : RBACPolicy) (a : UpdateArgs) (p : MissionPatch)
    (x : TxEnv) (c : Conn) : (updateMissionState rbac a p).wp x c
      (fun r c' => ∃ v, MayDo rbac a.actorId a.entityId "mission.context.write" c v ∧
        Keyed (row UpdateRow.requestId a.requestId c.db.missionUpdates) a.same
          (fun _ r => r = (v, true))
          (fun r c' => r.2 = false ∧ missionView a.entityId c'.db = some r.1 ∧
            Logs x ⟨c.db.updateContext a p, c.drawn⟩
              [a.draft "mission.context_updated" "mission"] c') c r c')
      fun e => ∀ v, MayDo rbac a.actorId a.entityId "mission.context.write" c v →
        Refuses (row UpdateRow.requestId a.requestId c.db.missionUpdates) a.same
          "request_id was already used for another mission update" (fun _ _ => False) e := by
  refine wp_mayDo fun v hv => ?_
  simp only [Txn.wp_bind, wp_select]
  cases hp : row UpdateRow.requestId a.requestId c.db.missionUpdates with
  | some prior => exact wp_replay rfl ⟨rfl, rfl⟩
  | none =>
    simp only [Txn.wp_bind, wp_write]
    refine wp_appendEvent (fun head hh => ?_) (refuses_none _ _ _)
    simp only [wp_fetchMission, Txn.wp_pure]
    exact ⟨fun w hw => Or.inr ⟨rfl, rfl, hw, .single _ hh⟩, fun _ => refuses_none _ _ _ _⟩

/-! ## Checkpoints -/

/-- The arguments of the transaction of `create_checkpoint`. -/
structure NewCheckpoint where
  (id actorId requestId missionId phase summary decisionsJson completedJson pendingJson : String)
  pendingList : List String
  evidenceJson : String
  (modelRole modelName : Option String)
  now : DateTime

namespace NewCheckpoint

variable (a : NewCheckpoint)

def row (sequence : ℕ) : CheckpointRow where
  id := a.id
  requestId := a.requestId
  missionId := a.missionId
  sequence := sequence
  actorId := a.actorId
  phase := a.phase
  summary := a.summary
  decisionsJson := a.decisionsJson
  completedJson := a.completedJson
  pendingJson := a.pendingJson
  evidenceJson := a.evidenceJson
  modelRole := a.modelRole
  modelName := a.modelName
  createdAt := isoformat a.now

def same (r : CheckpointRow) : Prop :=
  r.missionId = a.missionId ∧ r.actorId = a.actorId ∧ r.phase = a.phase ∧
    r.summary = a.summary ∧ r.decisionsJson = a.decisionsJson ∧
    r.completedJson = a.completedJson ∧ r.pendingJson = a.pendingJson ∧
    r.evidenceJson = a.evidenceJson ∧ r.modelRole = a.modelRole ∧ r.modelName = a.modelName

instance (r : CheckpointRow) : Decidable (a.same r) :=
  inferInstanceAs (Decidable (_ ∧ _))

def apply (r : RuntimeRow) : RuntimeRow :=
  { r with
    summary := a.summary
    currentStep := a.phase
    remainingStepsJson := a.pendingJson
    nextAction := a.pendingList.head?.getD ""
    currentModelRole := a.modelRole.or r.currentModelRole
    currentModel := a.modelName.or r.currentModel
    updatedAt := isoformat a.now }

def draft (sequence : ℕ) : AuditDraft where
  occurredAt := isoformat a.now
  eventType := "mission.checkpoint_created"
  actorId := a.actorId
  entityType := "mission"
  entityId := a.missionId
  payload := [("checkpoint_id", .str a.id), ("sequence", .int sequence), ("phase", .str a.phase)]

end NewCheckpoint

def nextSequence (missionId : String) (t : List CheckpointRow) : ℕ :=
  (t.filter fun r => r.missionId = missionId).foldr (fun r n => max r.sequence n) 0 + 1

/-- The transaction of `create_checkpoint`: the checkpoint, and whether it is a replay. -/
def createCheckpoint (rbac : RBACPolicy) (a : NewCheckpoint) :
    BrokerTxn (Option CheckpointRow × Bool) := do
  let v ← fetchMission a.missionId
  Txn.ofExcept (rbac.requireLifecycle a.actorId v.mission.projectId "mission.checkpoint.write")
  let prior ← select fun db => row CheckpointRow.requestId a.requestId db.missionCheckpoints
  match prior with
  | some prior =>
    Txn.demand (a.same prior) (.conflict "request_id was already used for another checkpoint")
    return (some prior, true)
  | none =>
    let sequence ← select fun db => nextSequence a.missionId db.missionCheckpoints
    insert (fun db => (row CheckpointRow.id a.id db.missionCheckpoints).isSome)
      fun db => { db with missionCheckpoints := db.missionCheckpoints ++ [a.row sequence] }
    write fun db => db.updateRuntime a.missionId a.apply
    let _ ← appendEvent (a.draft sequence)
    let r ← select fun db => row CheckpointRow.id a.id db.missionCheckpoints
    return (r, false)

def Db.addCheckpoint (db : Db) (a : NewCheckpoint) : Db :=
  { db.updateRuntime a.missionId a.apply with
    missionCheckpoints := db.missionCheckpoints ++
      [a.row (nextSequence a.missionId db.missionCheckpoints)] }

theorem createCheckpoint_spec (rbac : RBACPolicy) (a : NewCheckpoint) (x : TxEnv) (c : Conn) :
    (createCheckpoint rbac a).wp x c
      (fun r c' => ∃ v, MayDo rbac a.actorId a.missionId "mission.checkpoint.write" c v ∧
        Keyed (row CheckpointRow.requestId a.requestId c.db.missionCheckpoints) a.same
          (fun prior r => r = (some prior, true))
          (fun r c' => r =
              (some (a.row (nextSequence a.missionId c.db.missionCheckpoints)), false) ∧
            Logs x ⟨c.db.addCheckpoint a, c.drawn⟩
              [a.draft (nextSequence a.missionId c.db.missionCheckpoints)] c') c r c')
      fun e => ∀ v, MayDo rbac a.actorId a.missionId "mission.checkpoint.write" c v →
        Refuses (row CheckpointRow.requestId a.requestId c.db.missionCheckpoints) a.same
          "request_id was already used for another checkpoint" (fun _ _ => False) e := by
  refine wp_mayDo fun v hv => ?_
  simp only [Txn.wp_bind, wp_select]
  cases hp : row CheckpointRow.requestId a.requestId c.db.missionCheckpoints with
  | some prior => exact wp_replay rfl ⟨rfl, rfl⟩
  | none =>
    simp only [Txn.wp_bind, wp_select, wp_insert, wp_write]
    refine ⟨fun hv => wp_appendEvent (fun head hh => ?_) (refuses_none _ _ _),
      fun _ => refuses_none _ _ _ _⟩
    have hid : row CheckpointRow.id a.id c.db.missionCheckpoints = none := by simpa using hv
    have hrow := row_append_new (g := CheckpointRow.id)
      (r := a.row (nextSequence a.missionId c.db.missionCheckpoints)) hid
    exact Or.inr ⟨rfl, congrArg (fun r => (r, false)) hrow, .single _ hh⟩

def checkpointPublic (r : CheckpointRow) (replayed : Bool) : Except PyError Value := do
  let decisions ← loadsJson r.decisionsJson
  let completed ← loadsJson r.completedJson
  let pending ← loadsJson r.pendingJson
  let evidence ← loadsJson r.evidenceJson
  return .obj [
    ("id", .str (clip 36 r.id)),
    ("mission_id", .str (clip 36 r.missionId)),
    ("sequence", .int r.sequence),
    ("phase", .str (clip 120 r.phase)),
    ("summary", .str (clip 4000 r.summary)),
    ("decisions", decisions),
    ("completed", completed),
    ("pending", pending),
    ("evidence", evidence),
    ("model_role", optionalText r.modelRole),
    ("model_name", optionalText r.modelName),
    ("created_at", .str (clip 40 r.createdAt)),
    ("replayed", .bool replayed)]

/-! ## Records -/

inductive Confidence where
  | int (n : ℤ)
  | float (x : Flt)

def confidenceValue : Option Confidence → Value
  | some (.int n) => .int n
  | some (.float x) => .float x
  | none => .null

theorem wf_confidenceValue (c : Option Confidence) : Wf (confidenceValue c) := by
  rcases c with _ | _ | _ <;> trivial

/-- The JSON of a stored confidence. -/
def optionalFloat : Option Flt → Value
  | some x => .float x
  | none => .null

/-- The arguments of the transaction of `add_record`. The confidence that is stored is the
float of the one that was passed. -/
structure NewRecord where
  (id actorId requestId missionId kind content evidenceJson : String)
  incidentId : Option String
  confidence : Option Confidence
  storedConfidence : Option Flt
  modelTraceId : Option String
  now : DateTime

namespace NewRecord

variable (a : NewRecord)

def row : RecordRow where
  id := a.id
  requestId := a.requestId
  missionId := a.missionId
  incidentId := a.incidentId
  actorId := a.actorId
  kind := a.kind
  content := a.content
  confidence := a.storedConfidence
  evidenceJson := a.evidenceJson
  modelTraceId := a.modelTraceId
  createdAt := isoformat a.now

def same (r : RecordRow) : Prop :=
  r.missionId = a.missionId ∧ r.incidentId = a.incidentId ∧ r.actorId = a.actorId ∧
    r.kind = a.kind ∧ r.content = a.content ∧ r.confidence = a.storedConfidence ∧
    r.evidenceJson = a.evidenceJson ∧ r.modelTraceId = a.modelTraceId

instance (r : RecordRow) : Decidable (a.same r) :=
  inferInstanceAs (Decidable (_ ∧ _))

def draft : AuditDraft where
  occurredAt := isoformat a.now
  eventType := "mission." ++ a.kind ++ "_recorded"
  actorId := a.actorId
  entityType := "mission"
  entityId := a.missionId
  payload := [("record_id", .str a.id), ("confidence", confidenceValue a.confidence)]
  wf := by simp [Wf, WfPairs, keys, wf_confidenceValue]

end NewRecord

def requireIncident (projectId : String) : Option String → BrokerTxn Unit
  | none => pure ()
  | some id => do
    let incident ← select fun db => row IncidentRow.id id db.incidents
    let incident ← Txn.expect incident (.notFound "incident")
    Txn.demand (incident.projectId = projectId) (.conflict "incident belongs to another project")

/-- The transaction of `add_record`: the record, and whether it is a replay. -/
def addRecord (rbac : RBACPolicy) (a : NewRecord) : BrokerTxn (Option RecordRow × Bool) := do
  let v ← fetchMission a.missionId
  Txn.ofExcept (rbac.requireLifecycle a.actorId v.mission.projectId "mission.record.write")
  requireIncident v.mission.projectId a.incidentId
  let prior ← select fun db => row RecordRow.requestId a.requestId db.missionRecords
  match prior with
  | some prior =>
    Txn.demand (a.same prior) (.conflict "request_id was already used for another mission record")
    return (some prior, true)
  | none =>
    insert (fun db => (row RecordRow.id a.id db.missionRecords).isSome)
      fun db => { db with missionRecords := db.missionRecords ++ [a.row] }
    let _ ← appendEvent a.draft
    let r ← select fun db => row RecordRow.id a.id db.missionRecords
    return (r, false)

def IncidentOf (projectId : String) (incidentId : Option String) (db : Db) : Prop :=
  ∀ id ∈ incidentId, ∃ i, row IncidentRow.id id db.incidents = some i ∧ i.projectId = projectId

theorem requireIncident_spec (projectId : String) (incidentId : Option String) (x : TxEnv)
    (c : Conn) : (requireIncident projectId incidentId).wp x c
      (fun _ c' => c' = c ∧ IncidentOf projectId incidentId c.db)
      fun _ => ¬IncidentOf projectId incidentId c.db := by
  cases incidentId with
  | none => simp [requireIncident, IncidentOf]
  | some id =>
    simp only [requireIncident, Txn.wp_bind, wp_select, Txn.wp_expect, Txn.wp_demand]
    refine ⟨fun i hi => ⟨fun hp => ⟨trivial, ?_⟩, fun hp hall => ?_⟩, fun hnone hall => ?_⟩
    · rintro _ ⟨⟩
      exact ⟨i, hi, hp⟩
    · obtain ⟨j, hj, hjp⟩ := hall id rfl
      obtain rfl := Option.some.inj (hi.symm.trans hj)
      exact hp hjp
    · obtain ⟨j, hj, -⟩ := hall id rfl
      cases hnone.symm.trans hj

theorem addRecord_spec (rbac : RBACPolicy) (a : NewRecord) (x : TxEnv) (c : Conn) :
    (addRecord rbac a).wp x c
      (fun r c' => ∃ v, MayDo rbac a.actorId a.missionId "mission.record.write" c v ∧
        IncidentOf v.mission.projectId a.incidentId c.db ∧
        Keyed (row RecordRow.requestId a.requestId c.db.missionRecords) a.same
          (fun prior r => r = (some prior, true))
          (fun r c' => r = (some a.row, false) ∧
            Logs x ⟨{ c.db with missionRecords := c.db.missionRecords ++ [a.row] }, c.drawn⟩
              [a.draft] c') c r c')
      fun e => ∀ v, MayDo rbac a.actorId a.missionId "mission.record.write" c v →
        IncidentOf v.mission.projectId a.incidentId c.db →
        Refuses (row RecordRow.requestId a.requestId c.db.missionRecords) a.same
          "request_id was already used for another mission record" (fun _ _ => False) e := by
  refine wp_mayDo fun v hv => ?_
  rw [Txn.wp_bind]
  refine (requireIncident_spec v.mission.projectId a.incidentId x c).mono ?_
    fun e he hi => absurd hi he
  rintro _ c₁ ⟨rfl, hi⟩
  simp only [Txn.wp_bind, wp_select]
  cases hp : row RecordRow.requestId a.requestId c₁.db.missionRecords with
  | some prior =>
    exact Txn.wp.mono (wp_replay (A := fun prior r => r = (some prior, true))
      (N := fun _ _ => False) rfl ⟨rfl, rfl⟩)
      (fun r c' hr => ⟨hi, hr.imp_right fun h => h.2.elim⟩) fun e he _ => he
  | none =>
    simp only [Txn.wp_bind, wp_select, wp_insert]
    refine ⟨fun hv => wp_appendEvent (fun head hh => ?_) fun _ _ => refuses_none _ _ _ _,
      fun _ _ => refuses_none _ _ _ _⟩
    have hid : row RecordRow.id a.id c₁.db.missionRecords = none := by simpa using hv
    have hrow := row_append_new (g := RecordRow.id) (r := a.row) hid
    exact ⟨hi, Or.inr ⟨rfl, congrArg (fun r => (r, false)) hrow, .single _ hh⟩⟩

def recordPublic (r : RecordRow) (replayed : Bool) : Except PyError Value := do
  let evidence ← loadsJson r.evidenceJson
  return .obj [
    ("id", .str (clip 36 r.id)),
    ("mission_id", .str (clip 36 r.missionId)),
    ("incident_id", optionalText r.incidentId),
    ("kind", .str (clip 16 r.kind)),
    ("content", .str (clip 8000 r.content)),
    ("confidence", optionalFloat r.confidence),
    ("evidence", evidence),
    ("model_trace_id", optionalText r.modelTraceId),
    ("created_at", .str (clip 40 r.createdAt)),
    ("replayed", .bool replayed)]

/-! ## Model traces -/

def sqliteInt (n : ℤ) : Prop :=
  -2 ^ 63 ≤ n ∧ n < 2 ^ 63

instance (n : ℤ) : Decidable (sqliteInt n) :=
  inferInstanceAs (Decidable (_ ∧ _))

/-- The arguments of the transaction of `record_model_trace`. -/
structure NewTrace where
  (id actorId requestId missionId modelRole provider modelName reason outcome : String)
  confidence : Option Confidence
  storedConfidence : Option Flt
  (inputTokens outputTokens costMicrounits : ℤ)
  (parentTraceId finishedAt : Option String)
  now : DateTime

namespace NewTrace

variable (a : NewTrace)

/-- The model was called over the network. -/
def remote : Prop :=
  a.provider ∉ ["local", "ollama", "deterministic"]

instance : Decidable a.remote :=
  inferInstanceAs (Decidable (_ ∉ _))

def row : TraceRow where
  id := a.id
  requestId := a.requestId
  missionId := a.missionId
  parentTraceId := a.parentTraceId
  actorId := a.actorId
  modelRole := a.modelRole
  provider := a.provider
  modelName := a.modelName
  reason := a.reason
  outcome := a.outcome
  confidence := a.storedConfidence
  inputTokens := a.inputTokens
  outputTokens := a.outputTokens
  costMicrounits := a.costMicrounits
  startedAt := isoformat a.now
  finishedAt := a.finishedAt

def apply (r : RuntimeRow) : RuntimeRow :=
  { r with
    currentModelRole := some a.modelRole
    currentModel := some a.modelName
    iterationCount := r.iterationCount + 1
    apiCallCount := r.apiCallCount + if a.remote then 1 else 0
    updatedAt := isoformat a.now }

def draft : AuditDraft where
  occurredAt := isoformat a.now
  eventType := "model.trace_recorded"
  actorId := a.actorId
  entityType := "mission"
  entityId := a.missionId
  payload := [("trace_id", .str a.id), ("parent_trace_id", optionalText a.parentTraceId),
    ("model_role", .str a.modelRole), ("provider", .str a.provider),
    ("model_name", .str a.modelName), ("reason", .str a.reason), ("outcome", .str a.outcome),
    ("confidence", confidenceValue a.confidence), ("input_tokens", .int a.inputTokens),
    ("output_tokens", .int a.outputTokens), ("cost_microunits", .int a.costMicrounits)]
  wf := by simp [Wf, WfPairs, keys, wf_confidenceValue, wf_optionalText]

end NewTrace

def missionBudget (code message : String) : PyError :=
  .broker code message 429 []

def requireParent (missionId : String) : Option String → BrokerTxn Unit
  | none => pure ()
  | some id => do
    let parent ← select fun db => row TraceRow.id id db.modelTraces
    Txn.demand (parent.map TraceRow.missionId = some missionId)
      (.conflict "parent trace is missing or belongs to another mission")

/-- The transaction of `record_model_trace`: the trace, and whether it is a replay. -/
def recordModelTrace (rbac : RBACPolicy) (a : NewTrace) : BrokerTxn (Option TraceRow × Bool) := do
  let v ← fetchMission a.missionId
  Txn.ofExcept (rbac.requireLifecycle a.actorId v.mission.projectId "model.trace.write")
  let prior ← select fun db => row TraceRow.requestId a.requestId db.modelTraces
  match prior with
  | some prior => return (some prior, true)
  | none =>
    Txn.demand (v.runtime.iterationCount < v.runtime.maxIterations)
      (missionBudget "iteration_budget_exhausted"
        "mission iteration budget is exhausted; human escalation is required")
    Txn.demand (a.remote → v.runtime.apiCallCount < v.runtime.maxApiCalls)
      (missionBudget "api_call_budget_exhausted"
        "mission API call budget is exhausted; human escalation is required")
    requireParent a.missionId a.parentTraceId
    Txn.demand (sqliteInt a.inputTokens ∧ sqliteInt a.outputTokens ∧ sqliteInt a.costMicrounits)
      .overflow
    insert (fun db => (row TraceRow.id a.id db.modelTraces).isSome)
      fun db => { db with modelTraces := db.modelTraces ++ [a.row] }
    write fun db => db.updateRuntime a.missionId a.apply
    let _ ← appendEvent a.draft
    let r ← select fun db => row TraceRow.id a.id db.modelTraces
    return (r, false)

def Db.addTrace (db : Db) (a : NewTrace) : Db :=
  { db.updateRuntime a.missionId a.apply with modelTraces := db.modelTraces ++ [a.row] }

theorem requireParent_spec (missionId : String) (parent : Option String) (x : TxEnv)
    (c : Conn) : (requireParent missionId parent).wp x c (fun _ c' => c' = c) fun _ => True := by
  cases parent with
  | none => simp [requireParent]
  | some id =>
    simp only [requireParent, Txn.wp_bind, wp_select, Txn.wp_demand]
    exact ⟨fun _ => trivial, fun _ => trivial⟩

/-- A replay is answered without a look at the other arguments. -/
theorem recordModelTrace_spec (rbac : RBACPolicy) (a : NewTrace) (x : TxEnv) (c : Conn) :
    (recordModelTrace rbac a).wp x c
      (fun r c' => ∃ v, MayDo rbac a.actorId a.missionId "model.trace.write" c v ∧
        Keyed (row TraceRow.requestId a.requestId c.db.modelTraces) (fun _ => True)
          (fun prior r => r = (some prior, true))
          (fun r c' => r = (some a.row, false) ∧
            (v.runtime.iterationCount < v.runtime.maxIterations ∧
              (a.remote → v.runtime.apiCallCount < v.runtime.maxApiCalls)) ∧
            Logs x ⟨c.db.addTrace a, c.drawn⟩ [a.draft] c') c r c')
      fun _ => ∀ v, MayDo rbac a.actorId a.missionId "model.trace.write" c v →
        row TraceRow.requestId a.requestId c.db.modelTraces = none := by
  refine wp_mayDo fun v hv => ?_
  simp only [Txn.wp_bind, wp_select]
  cases hp : row TraceRow.requestId a.requestId c.db.modelTraces with
  | some prior => exact Or.inl ⟨prior, rfl, trivial, rfl, rfl⟩
  | none =>
    simp only [Txn.wp_bind, Txn.wp_demand]
    refine ⟨fun hiter => ⟨fun hcalls => ?_, fun _ => trivial⟩, fun _ => trivial⟩
    refine (requireParent_spec a.missionId a.parentTraceId x c).mono ?_ fun _ _ => trivial
    rintro _ c₁ rfl
    simp only [wp_insert, wp_write]
    refine ⟨fun _ => ⟨fun hv => wp_appendEvent (fun head hh => ?_) fun _ => trivial,
      fun _ => trivial⟩, fun _ => trivial⟩
    have hid : row TraceRow.id a.id c₁.db.modelTraces = none := by simpa using hv
    have hrow := row_append_new (g := TraceRow.id) (r := a.row) hid
    exact Or.inr ⟨rfl, congrArg (fun r => (r, false)) hrow, ⟨hiter, hcalls⟩, .single _ hh⟩

def tracePublic (r : TraceRow) (replayed : Bool) : Value :=
  .obj [
    ("id", .str (clip 36 r.id)),
    ("mission_id", .str (clip 36 r.missionId)),
    ("parent_trace_id", optionalText r.parentTraceId),
    ("model_role", .str (clip 32 r.modelRole)),
    ("provider", .str (clip 64 r.provider)),
    ("model_name", .str (clip 200 r.modelName)),
    ("reason", .str (clip 1000 r.reason)),
    ("outcome", .str (clip 16 r.outcome)),
    ("confidence", optionalFloat r.confidence),
    ("input_tokens", .int r.inputTokens),
    ("output_tokens", .int r.outputTokens),
    ("cost_microunits", .int r.costMicrounits),
    ("started_at", .str (clip 40 r.startedAt)),
    ("finished_at", optionalText r.finishedAt),
    ("replayed", .bool replayed)]

end OpsControlPlane
