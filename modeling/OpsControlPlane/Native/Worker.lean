import OpsControlPlane.Native.State

/-!
# The native worker

One pass of the main loop: the messages that came in are accepted, the pending jobs are taken
up one after the other, and then the follow-ups of approvals. `process` treats one job and
`followUp` one follow-up; each asks the outside between two writes of a phase.

A call to Hermes or to Zulip names the job or the action that it is made for.
-/

namespace OpsNative

open Calls

/-! ## Operations -/

/-- An action of a mission, as the broker shows it. -/
structure Action where
  id : String
  (missionId requestedBy actionClass : Option String)
  status : String

structure Record where
  (missionId kind : Option String)
  evidence : List String
  content : Option String

structure Incoming where
  id : ℕ
  subject : String
  content : Option String

inductive Mode where
  | cli
  | api
  | hybrid
  | other
deriving DecidableEq

/-- What the worker asks of the outside. -/
inductive ExtOp where
  | messages (cursor : ℕ)
  | trusted (message : Incoming)
  | executionMode
  | availableCli
  | apiAllowed
  | createMission (requestId projectId title : String)
  | addRecord (requestId : String) (missionId : Option String) (kind content : String)
      (evidence : List String)
  | listRecords (missionId : Option String)
  | listActions (missionId : Option String) (limit : ℕ)
  | updateMission (requestId : String) (missionId : Option String)
      (summary currentStep nextAction : String)
  | explain (sourceId : ℕ) (missionId : Option String) (content : String) (advanced : Bool)
  | sendJob (sourceId : ℕ) (topic content : String)
  /-- `zulip.send`, for a follow-up. -/
  | sendFollowup (actionId topic : String) (content : Option String)
  /-- `operations.action` with `execute=True`. -/
  | execute (missionId : Option String) (actionId : String)
  /-- The pass takes up a job, which asks nothing. -/
  | examine (sourceId : ℕ)
  /-- The pass takes up the follow-ups, which asks nothing. -/
  | followups

abbrev ExtOp.Reply : ExtOp → Type
  | .messages _ => List Incoming
  | .trusted _ => Bool
  | .executionMode => Mode
  | .availableCli => List Backend
  | .apiAllowed => Bool
  | .createMission _ _ _ => String
  | .listRecords _ => List Record
  | .listActions _ _ => List Action
  | .explain _ _ _ _ => String
  | .sendJob _ _ _ => ℤ
  | .sendFollowup _ _ _ => ℤ
  | .execute _ _ => Action
  | _ => Unit

def ExtOp.event : ExtOp → Option Event
  | .explain sourceId _ _ advanced => some (.explain sourceId advanced)
  | .sendJob sourceId _ _ => some (.sendJob sourceId)
  | .sendFollowup actionId _ _ => some (.sendFollowup actionId)
  | .execute _ actionId => some (.execute actionId)
  | .examine sourceId => some (.examine sourceId)
  | .followups => some .followups
  | _ => none

/-- A transaction, or a call to the outside. -/
inductive NativeOp where
  | tx (t : Tx)
  | ext (o : ExtOp)

abbrev NativeOp.Reply : NativeOp → Type
  | .tx t => t.Reply
  | .ext o => o.Reply

abbrev nativeInterface : Interface :=
  ⟨NativeOp, fun o => Except Exc o.Reply⟩

abbrev Native (α : Type) : Type :=
  Prog nativeInterface Exc α

/-- Ask an operation, and fail as it fails. -/
def perform (o : NativeOp) : Native o.Reply := do
  let r : Except Exc o.Reply ← Prog.perform (I := nativeInterface) o
  Prog.ofExcept r

abbrev tx (t : Tx) : Native t.Reply :=
  perform (.tx t)

abbrev ext (o : ExtOp) : Native o.Reply :=
  perform (.ext o)

/-- What the environment chooses when an operation is performed. -/
structure NativeChoice where
  fault : Option String
  answer : (o : ExtOp) → Except Exc o.Reply

def performNative : (o : NativeOp) → NativeChoice → Store → Except Exc o.Reply × Store
  | .tx t, x, s =>
    match x.fault with
    | some message => (.error (.sqlite message), s)
    | none =>
      match t.run s with
      | .ok (r, s') => (.ok r, s')
      | .error e => (.error e, s)
  | .ext o, x, s => (x.answer o, { s with log := s.log ++ o.event.toList })

/-! ## Answers -/

inductive AnswerStatus where
  | done
  | needsReasoning
  | needsHuman
deriving DecidableEq

structure Answer where
  status : AnswerStatus
  message : String

/-- The configuration of the worker, and what it computes of texts. -/
structure Settings where
  (generationEnabled operations : Bool)
  parseAnswer : String → Except Exc Answer
  /-- `str(uuid.UUID(action_id))`. -/
  canonicalUuid : String → Except Exc String
  requestId : ℕ → String → String
  selectProject : String → Except Exc String
  selectBackend : String → Mode → List Backend → Option Backend

/-! ## Jobs -/

def reload (sourceId : ℕ) : Native Job := do
  let job : Option Job ← tx (.get sourceId)
  match job with
  | some job => return job
  | none => .fail .type

def watchAll (settings : Settings) (sourceId : ℕ) : List Action → Native Unit
  | [] => return ()
  | action :: actions => do
    let actionId ← Prog.ofExcept (settings.canonicalUuid action.id)
    let _ : Unit ← tx (.watchApproval sourceId actionId)
    watchAll settings sourceId actions

/-- The status of an action whose approval is watched after a handoff. -/
def handoffStatuses : List String :=
  ["pending_approval", "approved", "running", "succeeded", "failed", "rejected", "expired",
    "approval_expired"]

def Record.answers (r : Record) (job : Job) : Bool :=
  r.missionId = job.missionId ∧ r.kind = some "handoff" ∧
    ("zulip-response:" ++ toString job.sourceId) ∈ r.evidence ∧
    r.content.any fun c => 1 ≤ c.length ∧ c.length ≤ 3000

def acceptHandoff (settings : Settings) (job : Job) : Native Bool :=
  if job.phase ≠ .prepared then return false
  else do
    let records : List Record ← ext (.listRecords job.missionId)
    match records.filter fun r => r.answers job with
    | [] => return false
    | [record] => do
      let actions : List Action ← ext (.listActions job.missionId 50)
      watchAll settings job.sourceId (actions.filter fun a => a.actionClass = some "C" ∧
        (a.requestedBy = some "codex-supervised" ∨ a.requestedBy = some "claude-supervised") ∧
        a.status ∈ handoffStatuses)
      let _ : Unit ← tx (.set job.sourceId { phase := some .ready, response := record.content })
      return true
    | _ => do
      let _ : Unit ← tx (.set job.sourceId
        { phase := some .needsReview, error := some "conflicting_handoffs" })
      return false

def askHermes (settings : Settings) (job : Job) : Native Answer := do
  let raw : String ← ext (.explain job.sourceId job.missionId job.content false)
  let answer ← Prog.ofExcept (settings.parseAnswer raw)
  if answer.status = .needsReasoning then do
    let raw : String ← ext (.explain job.sourceId job.missionId job.content true)
    let answer ← Prog.ofExcept (settings.parseAnswer raw)
    if answer.status = .needsReasoning then
      .fail (.generation "reasoning escalation exhausted")
    else return answer
  else return answer

/-- The generation of the response of a job, which is caught when it fails. -/
def generate (settings : Settings) (job : Job) : Native Unit := do
  let answer ← askHermes settings job
  let actions : List Action ← ext (.listActions job.missionId 20)
  watchAll settings job.sourceId (actions.filter fun a =>
    a.requestedBy = some "hermes-native" ∧ a.actionClass = some "C")
  let succeeded := actions.filter fun a => a.status = "succeeded"
  if succeeded = [] ∧ answer.status ≠ .needsHuman then
    .fail (.generation "required action evidence is missing")
  else do
    let _ : Unit ← ext (.addRecord (settings.requestId job.sourceId "analysis") job.missionId
      "analysis" (String.ofList (answer.message.toList.take 1000)) (succeeded.map fun a => a.id))
    let response := String.ofList (answer.message.toList.take 3000)
    let _ : Unit ← tx (.set job.sourceId { phase := some .ready, response := some response })
    return ()

def prepare (settings : Settings) (job : Job) : Native Job :=
  if job.phase = .received then do
    let mission : String ← ext (.createMission (settings.requestId job.sourceId "mission")
      job.projectId (String.ofList (job.content.toList.take 200)))
    let _ : Unit ← tx (.set job.sourceId { missionId := some mission, phase := some .prepared })
    reload job.sourceId
  else return job

/-- The response of a job that is prepared: none if it failed. -/
def respond (settings : Settings) (job : Job) : Native (Option Job) :=
  if job.phase = .prepared then do
    let _ : Unit ← tx (.set job.sourceId { phase := some .generating })
    match ← Prog.attempt (generate settings job) with
    | .ok _ => do
      let job ← reload job.sourceId
      return some job
    | .error _ => do
      let _ : Unit ← tx (.set job.sourceId
        { phase := some .needsReview, error := some "generation_or_observation_failed" })
      return none
  else return some job

def deliver (settings : Settings) (job : Job) : Native Unit :=
  if job.phase = .ready ∨ job.phase = .sending then
    match job.missionId with
    | none => .fail .type
    | some mission =>
      if job.phase = .sending then do
        let _ : Unit ← tx (.set job.sourceId
          { phase := some .needsReview, error := some "ambiguous_delivery" })
        return ()
      else do
        let _ : Unit ← tx (.set job.sourceId { phase := some .sending })
        match job.response with
        | none => .fail .type
        | some response => do
          let delivery : ℤ ← ext (.sendJob job.sourceId job.topic (response ++
            "\n\nMission : `" ++ mission ++ "`\nOPS-NATIVE-RESULT:" ++ mission))
          let _ : Unit ← tx (.set job.sourceId
            { phase := some .delivered, deliveryId := some delivery })
          let _ : Unit ← ext (.updateMission (settings.requestId job.sourceId "reported")
            job.missionId
            "Réponse publiée dans Zulip ; consulter les preuves et limites de la mission."
            "response_reported" "Vérifier si la demande nécessite une suite hors observation.")
          return ()
  else return ()

def process (settings : Settings) (job : Job) : Native Unit := do
  let job ← prepare settings job
  match ← respond settings job with
  | some job => deliver settings job
  | none => return ()

/-! ## Follow-ups -/

def label : String → Option String
  | "succeeded" => some "exécutée avec succès"
  | "failed" => some "échouée"
  | "rejected" => some "refusée"
  | "expired" => some "expirée"
  | "approval_expired" => some "approbation expirée"
  | _ => none

/-- The response to a follow-up, sent and recorded. -/
def publishFollowup (actionId topic : String) (response : Option String) : Native Unit := do
  let _ : Unit ← tx (.setApproval actionId { phase := .sending })
  let delivery : ℤ ← ext (.sendFollowup actionId topic response)
  let _ : Unit ← tx (.setApproval actionId { phase := .delivered, deliveryId := some delivery })
  return ()

def settleFollowup (job : ApprovalJob) (status : String) : Native Unit :=
  let actionId := job.followup.actionId
  if status ∈ ["pending_approval", "approved", "running", "authorized"] then
    tx (.setApproval actionId { phase := .waiting })
  else
    match label status, job.missionId with
    | none, _ => tx (.setApproval actionId { phase := .needsReview })
    | some _, none => .fail .type
    | some text, some mission => do
      let response := "Action `" ++ actionId ++ "` : " ++ text ++
        ". Consulte les preuves de la mission `" ++ mission ++ "`."
      let _ : Unit ← tx (.setApproval actionId { phase := .ready, response := some response })
      publishFollowup actionId job.topic (some response)

/-- The action of a follow-up that waits, executed if it is approved. -/
def awaitAction (job : ApprovalJob) : Native Unit := do
  let actionId := job.followup.actionId
  let summaries : List Action ← ext (.listActions job.missionId 50)
  match summaries.find? fun a => a.id = actionId with
  | none => tx (.setApproval actionId { phase := .needsReview })
  | some action =>
    if action.missionId ≠ job.missionId ∨ (action.requestedBy ≠ some "hermes-native" ∧
        action.requestedBy ≠ some "codex-supervised" ∧
        action.requestedBy ≠ some "claude-supervised") then
      tx (.setApproval actionId { phase := .needsReview })
    else if action.status = "approved" ∧ action.requestedBy = some "hermes-native" then do
      let allowed : Bool ← ext .apiAllowed
      if allowed then do
        let _ : Unit ← tx (.setApproval actionId { phase := .executing })
        let action : Action ← ext (.execute job.missionId actionId)
        settleFollowup job action.status
      else settleFollowup job action.status
    else settleFollowup job action.status

def followUp (job : ApprovalJob) : Native Unit := do
  let body : Native Unit :=
    if job.followup.phase = .waiting then awaitAction job
    else publishFollowup job.followup.actionId job.topic job.followup.response
  match ← Prog.attempt body with
  | .ok _ => return ()
  | .error _ => tx (.setApproval job.followup.actionId { phase := .needsReview })

def followUpAll : List ApprovalJob → Native Unit
  | [] => return ()
  | job :: jobs => do
    followUp job
    followUpAll jobs

def approvalFollowups (settings : Settings) : Native Unit := do
  let _ : Unit ← ext .followups
  if settings.operations then do
    let jobs : List ApprovalJob ← tx .approvalJobs
    followUpAll jobs
  else return ()

/-! ## Passes -/

/-- A message that is trusted becomes a job. -/
def acceptMessage (settings : Settings) (message : Incoming) (content : String) :
    Native Unit := do
  let body : Native Unit := do
    let project ← Prog.ofExcept (settings.selectProject message.subject)
    tx (.accept message.id message.subject content project)
  match ← Prog.attempt body with
  | .ok _ => return ()
  | .error (.value _) => do
    let _ : Unit ← tx (.accept message.id message.subject content "infra-shared")
    tx (.set message.id { backend := some .manual, error := some "unknown_project" })
  | .error e => .fail e

/-- Only a trusted message with a text of the right length is accepted. -/
def admitMessage (settings : Settings) (message : Incoming) (trusted : Bool) : Native Unit :=
  match message.content with
  | none => return ()
  | some content =>
    if trusted ∧ 1 ≤ content.length ∧ content.length ≤ 4000 then
      acceptMessage settings message content
    else return ()

def intake (settings : Settings) (cursor : ℕ) : List Incoming → Native Unit
  | [] => return ()
  | message :: messages => do
    if message.id ≤ cursor then intake settings cursor messages
    else do
      let trusted : Bool ← ext (.trusted message)
      admitMessage settings message trusted
      let _ : Unit ← tx (.setCursor message.id)
      intake settings cursor messages

/-- The backend of a job, chosen once: none if no CLI is available. -/
def dispatch (settings : Settings) (job : Job) : Native (Option Job) :=
  match job.backend with
  | some _ => return some job
  | none => do
    let mode : Mode ← ext .executionMode
    let tools : List Backend ← ext .availableCli
    match settings.selectBackend job.content mode tools with
    | none => return none
    | some backend => do
      let _ : Unit ← tx (.set job.sourceId { backend := some backend })
      let job ← reload job.sourceId
      return some job

def Backend.name : Backend → String
  | .api => "api"
  | .codex => "codex"
  | .claude => "claude"
  | .manual => "manual"

def record (settings : Settings) (job : Job) : Native Job :=
  if job.phase = .prepared then
    match job.backend with
    | none => .fail .type
    | some backend => do
      let _ : Unit ← ext (.addRecord (settings.requestId job.sourceId "source") job.missionId
        "observation" job.content ["zulip-source:" ++ toString job.sourceId])
      let _ : Unit ← ext (.addRecord (settings.requestId job.sourceId "dispatch") job.missionId
        "observation" ("Destination de traitement : " ++ backend.name)
        ["zulip-dispatch:" ++ toString job.sourceId ++ ":" ++ backend.name])
      let _ ← acceptHandoff settings job
      reload job.sourceId
  else return job

def unknownProject : String :=
  "Projet inconnu dans le sujet. Utilise [infra-shared], [minecraft], [network-shared], " ++
    "[monitoring-shared] ou [backup-shared]."

/-- A job of an unknown project is answered with the projects. -/
def refuse (job : Job) : Native Job :=
  if job.phase = .prepared ∧ job.error = some "unknown_project" then do
    let _ : Unit ← tx (.set job.sourceId
      { phase := some .ready, response := some unknownProject })
    reload job.sourceId
  else return job

/-- The API may answer the job, or the job waits for its delivery. -/
def mayProcess (settings : Settings) (job : Job) : Native Bool :=
  if job.backend = some .api ∧ settings.generationEnabled then do
    let allowed : Bool ← ext .apiAllowed
    return allowed || decide (job.phase = .ready ∨ job.phase = .sending)
  else return decide (job.phase = .ready ∨ job.phase = .sending)

def handleJob (settings : Settings) (job : Job) : Native Unit := do
  let _ : Unit ← ext (.examine job.sourceId)
  match ← dispatch settings job with
  | none => return ()
  | some job => do
    let job ← prepare settings job
    let job ← record settings job
    let job ← refuse job
    if ← mayProcess settings job then process settings job else return ()

def handleJobs (settings : Settings) : List Job → Native Unit
  | [] => return ()
  | job :: jobs => do
    handleJob settings job
    handleJobs settings jobs

/-- The part of a pass after the intake. -/
def treat (settings : Settings) : Native Unit := do
  let jobs : List Job ← tx .pending
  handleJobs settings jobs
  approvalFollowups settings

/-- One pass of the main loop, whose failure is caught. -/
def pass (settings : Settings) : Native Unit := do
  let body : Native Unit := do
    let cursor : Option ℕ ← tx .cursor
    match cursor with
    | none => .fail .type
    | some cursor => do
      let messages : List Incoming ← ext (.messages cursor)
      intake settings cursor messages
      treat settings
  let _ ← Prog.attempt body
  return ()

/-- The start of a process: the repair, and the cursor if there is none. -/
def start : Native Unit := do
  let _ : Unit ← tx .repair
  let cursor : Option ℕ ← tx .cursor
  match cursor with
  | some _ => return ()
  | none => do
    let messages : List Incoming ← ext (.messages 0)
    tx (.setCursor ((messages.map fun m => m.id).foldr max 0))

end OpsNative
