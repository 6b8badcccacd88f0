import OpsControlPlane.Broker.MissionMethods

/-!
# The endpoints of the Zulip bridge

The endpoints of `api.py` that answer the bridge, with the read methods of the service
that they call. A response is the JSON object that the endpoint returns.
-/

set_option linter.unusedSectionVars false

namespace OpsControlPlane

open Text JsonText Regex Calendar Transaction

variable [Platform]

/-! ## Reads of missions -/

def getMission (b : Broker) (actorId missionId : String) : Method Value := do
  .ofExcept (validateActor actorId)
  let db ← snapshot
  let r ← expect (row MissionRow.id missionId db.missions) (.notFound "mission")
  .ofExcept (b.rbac.requireProject actorId r.projectId)
  return missionPublic r

def getMissionState (b : Broker) (actorId missionId : String) : Method Value := do
  .ofExcept (validateActor actorId)
  let db ← snapshot
  let v ← expect (missionView missionId db) (.notFound "mission")
  .ofExcept (b.rbac.requireProject actorId v.mission.projectId)
  .ofExcept (runtimePublic v none)

/-! ## Pending approvals -/

/-- `str.split`, from the characters of the word that is being read. -/
def splitWords : List Char → List Char → List (List Char)
  | [], [] => []
  | w, [] => [w.reverse]
  | w, c :: s =>
    if isSpace c then (if w = [] then splitWords [] s else w.reverse :: splitWords [] s)
    else splitWords (c :: w) s

/-- `" ".join(value.split())`. -/
def collapse (s : String) : List Char :=
  (splitWords [] (toChars s)).intersperse [' '] |>.flatten

def publicationText (value : String) (maximum : ℕ) (fallback : String) : String :=
  let collapsed := collapse (redactText value)
  ofChars ((if collapsed = [] then toChars fallback else collapsed).take maximum)

def textParameter (parameters : List (String × Value)) (name fallback : String) : String :=
  match parameters.lookup name with
  | some (.str s) => s
  | _ => fallback

def validateLimit (limit : ℤ) : Except PyError ℕ :=
  if 1 ≤ limit ∧ limit ≤ 50 then .ok limit.toNat
  else .error (.invalid "invalid_request" "limit must be an integer from 1 to 50")

def validateOffset (offset : ℤ) : Except PyError ℕ :=
  if 0 ≤ offset ∧ offset ≤ 10000 then .ok offset.toNat
  else .error (.invalid "invalid_request" "offset must be an integer from 0 to 10000")

def pendingOrder (r s : ActionRow) : Prop :=
  r.createdAt < s.createdAt ∨ r.createdAt = s.createdAt ∧ r.id ≤ s.id

instance (r s : ActionRow) : Decidable (pendingOrder r s) :=
  inferInstanceAs (Decidable (_ ∨ _))

/-- The actions of class C that wait for a decision, a page of them. -/
def pendingActions (now : String) (limit offset : ℕ) (db : Db) : List ActionRow :=
  (((db.actions.filter fun r => r.actionClass = .c ∧ r.status = .pendingApproval ∧
    ∃ d ∈ r.approvalDeadline, now < d).insertionSort pendingOrder).drop offset).take limit

def publishable (b : Broker) (r : ActionRow) :
    Except PyError (Runbook × List (String × Value)) := do
  let runbook ← b.registry.get r.runbookId
  if runbook.actionClass ≠ .c ∨ runbook.version ≠ r.runbookVersion ∨
      runbook.project ≠ r.projectId then .error integrityMismatch
  else do
    let stored ← loadsJson r.parametersJson
    let parameters ← runbook.validateParameters stored
    return (runbook, parameters)

def publicApproval (b : Broker) (now : DateTime) (r : ActionRow) : Option Value := do
  let actionId ← normalizedUuid4 r.id
  if actionId ≠ r.id then none
  else
    match publishable b r, r.approvalDeadline with
    | .ok (runbook, parameters), some deadline =>
      match parseTimestamp deadline with
      | none => none
      | some d =>
        if d ≤ now then none
        else some (.obj [
          ("action_id", .str actionId),
          ("summary", .str (publicationText (textParameter parameters "summary"
            runbook.description) 240 "Changement de classe C à valider")),
          ("impact", .str (publicationText (textParameter parameters "impact"
            "Impact à valider dans le runbook") 1000 "Impact à valider dans le runbook")),
          ("rollback", .str (publicationText (textParameter parameters "rollback"
            "Rollback défini par le runbook") 1000 "Rollback défini par le runbook")),
          ("deadline", .str (clip 64 deadline))])
    | _, _ => none

def pendingPublicApprovals (b : Broker) (limit offset : ℤ) : Method Value := do
  let limit ← .ofExcept (validateLimit limit)
  let offset ← .ofExcept (validateOffset offset)
  let t ← now
  let db ← snapshot
  return .arr ((pendingActions (isoformat t) limit offset db).filterMap (publicApproval b t))

/-! ## Endpoints -/

/-- `_ZULIP_PUBLISHER_ACTOR_ID`. -/
def zulipPublisher : String := "zulip-publisher"

/-- `_ZULIP_MOBILE_ACTOR_ID`. -/
def zulipMobile : String := "zulip-mobile"

def requireHeader (header actorId message : String) : Method Unit :=
  demand (header = actorId) (.authorizationDenied message)

def field (v : Value) (key : String) : Except PyError Value :=
  match v with
  | .obj kvs =>
    match kvs.lookup key with
    | some v => .ok v
    | none => .error .keyError
  | _ => .error .typeError

/-- `{key: value[key] for key in (...)}`. -/
def fields (v : Value) : List String → Except PyError (List (String × Value))
  | [] => .ok []
  | key :: rest => do
    let a ← field v key
    let as ← fields v rest
    return (key, a) :: as

/-- `GET /v1/zulip/approvals/pending`. -/
def zulipPending (b : Broker) (header : String) (limit offset : ℤ) : Method Value := do
  requireHeader header zulipPublisher "publisher actor is not authorized"
  let items ← pendingPublicApprovals b limit offset
  return .obj [("items", items)]

/-- `POST /v1/zulip/missions`. -/
def zulipCreate (b : Broker) (header requestId projectId title : String) : Method Value := do
  requireHeader header zulipMobile "mobile bridge actor is not authorized"
  demand ((toChars title).any Platform.isControl = false)
    (.invalid "invalid_request" "mission title contains control characters")
  let mission ← createMissionMethod b ⟨zulipMobile, requestId, projectId, title⟩
  let kvs ← .ofExcept
    (fields mission ["id", "project_id", "title", "status", "created_at", "updated_at"])
  return .obj kvs

/-- `GET /v1/zulip/missions/{mission_id}/status`. -/
def zulipStatus (b : Broker) (header missionId : String) : Method Value := do
  requireHeader header zulipMobile "mobile bridge actor is not authorized"
  let mission ← getMission b zulipMobile missionId
  let runtime ← getMissionState b zulipMobile missionId
  let head ← .ofExcept (fields mission ["id", "project_id", "title", "status"])
  let queueState ← .ofExcept (field runtime "queue_state")
  let updatedAt ← .ofExcept (field mission "updated_at")
  return .obj (head ++ [("queue_state", queueState), ("updated_at", updatedAt)])

def resumeMission (b : Broker) (missionId requestId : String) (mission : Value) :
    Method Unit := do
  let status ← .ofExcept (field mission "status")
  match status with
  | .str "completed" =>
    .fail (.authorizationDenied "a completed mission cannot be resumed from Zulip")
  | .str "paused" => do
    let _ ← setMissionStatusMethod b ⟨zulipMobile, requestId, missionId, "open"⟩
  | _ => pure ()

/-- `POST /v1/zulip/missions/{mission_id}/resume`. -/
def zulipResume (b : Broker) (header missionId requestId : String) : Method Value := do
  requireHeader header zulipMobile "mobile bridge actor is not authorized"
  let mission ← getMission b zulipMobile missionId
  resumeMission b missionId requestId mission
  zulipStatus b header missionId

/-- `POST /v1/actions/{action_id}/approvals`. -/
def zulipDecide (header : String) (q : DecideApproval) : Method Value := do
  demand (q.actorId = header)
    (.authorizationDenied "X-Actor-ID does not match the request actor_id")
  decideApprovalMethod q

end OpsControlPlane
