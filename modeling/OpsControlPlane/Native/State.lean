import OpsControlPlane.Lib.Transaction
import OpsControlPlane.Lib.CrashLogic

/-!
# The state of the native worker

The jobs and the approval follow-ups of the worker, with the transactions on them. The log is
what the worker did to phases and what it asked of the outside; nothing reads it.
-/

namespace OpsNative

open Transaction

/-! ## Rows -/

/-- What a method of the worker raises. -/
inductive Exc where
  | value (message : String)
  | generation (message : String)
  /-- `TypeError`, of a value that is not there. -/
  | type
  /-- What a call to the outside raises. -/
  | remote (message : String)
  | sqlite (message : String)
deriving DecidableEq

inductive Phase where
  | received
  | prepared
  | generating
  | ready
  | sending
  | delivered
  | needsReview
deriving DecidableEq

inductive FollowupPhase where
  | waiting
  | executing
  | ready
  | sending
  | delivered
  | needsReview
deriving DecidableEq

inductive Backend where
  | api
  | codex
  | claude
  | manual
deriving DecidableEq

structure Job where
  sourceId : ℕ
  (topic content : String)
  missionId : Option String
  phase : Phase
  response : Option String
  deliveryId : Option ℤ
  error : Option String
  backend : Option Backend
  projectId : String
deriving DecidableEq

/-- A row of `approval_followups`. -/
structure Followup where
  actionId : String
  sourceId : ℕ
  phase : FollowupPhase
  response : Option String
  deliveryId : Option ℤ
deriving DecidableEq

structure ApprovalJob where
  followup : Followup
  missionId : Option String
  topic : String
deriving DecidableEq

/-! ## What happens -/

/-- What the worker does to a phase, and what it asks of the outside. -/
inductive Event where
  | jobPhase (sourceId : ℕ) (before after : Phase)
  | followupPhase (actionId : String) (before after : FollowupPhase)
  /-- Hermes is asked, with the advanced reasoning or the standard one. -/
  | explain (sourceId : ℕ) (advanced : Bool)
  | sendJob (sourceId : ℕ)
  | sendFollowup (actionId : String)
  | execute (actionId : String)
  /-- A pass takes up the job. -/
  | examine (sourceId : ℕ)
  /-- A pass takes up the follow-ups. -/
  | followups
deriving DecidableEq

structure Store where
  jobs : List Job
  cursor : Option ℕ
  followups : List Followup
  log : List Event
deriving DecidableEq

def Store.empty : Store :=
  ⟨[], none, [], []⟩

/-! ## Transactions -/

def projects : List String :=
  ["infra-shared", "minecraft", "network-shared", "monitoring-shared", "backup-shared"]

/-- The fields of `State.set`: none where the field is not given. -/
structure JobPatch where
  missionId : Option String := none
  phase : Option Phase := none
  response : Option String := none
  deliveryId : Option ℤ := none
  error : Option String := none
  backend : Option Backend := none
deriving DecidableEq

def JobPatch.apply (p : JobPatch) (j : Job) : Job :=
  { j with
    missionId := p.missionId.or j.missionId
    phase := p.phase.getD j.phase
    response := p.response.or j.response
    deliveryId := p.deliveryId.or j.deliveryId
    error := p.error.or j.error
    backend := p.backend.or j.backend }

/-- The fields of `State.set_approval`. -/
structure FollowupPatch where
  phase : FollowupPhase
  response : Option String := none
  deliveryId : Option ℤ := none
deriving DecidableEq

def FollowupPatch.apply (p : FollowupPatch) (f : Followup) : Followup :=
  { f with
    phase := p.phase
    response := p.response.or f.response
    deliveryId := p.deliveryId.or f.deliveryId }

def Store.job (s : Store) (sourceId : ℕ) : Option Job :=
  row Job.sourceId sourceId s.jobs

def Store.followup (s : Store) (actionId : String) : Option Followup :=
  row Followup.actionId actionId s.followups

/-- The jobs rewritten, and their changes of phase. -/
def Store.updateJobs (p : Job → Bool) (f : Job → Job) (s : Store) : Store :=
  { s with
    jobs := update p f s.jobs
    log := s.log ++ (s.jobs.filter p).map fun j => .jobPhase j.sourceId j.phase (f j).phase }

/-- The follow-ups rewritten, and their changes of phase. -/
def Store.updateFollowups (p : Followup → Bool) (f : Followup → Followup) (s : Store) : Store :=
  { s with
    followups := update p f s.followups
    log := s.log ++ (s.followups.filter p).map fun r =>
      .followupPhase r.actionId r.phase (f r).phase }

/-- The repair at the start: an interrupted generation is not started again. -/
def Store.repair (s : Store) : Store :=
  (s.updateFollowups (fun f => f.phase = .executing ∨ f.phase = .sending)
    fun f => { f with phase := .needsReview }).updateJobs (fun j => j.phase = .generating)
      fun j => { j with phase := .needsReview, error := some "interrupted_generation" }

def accept (sourceId : ℕ) (topic content projectId : String) (s : Store) :
    Except Exc (Unit × Store) :=
  if projectId ∉ projects then .error (.value "Unknown project")
  else if sourceId = 0 ∨ ¬ (1 ≤ content.length ∧ content.length ≤ 4000) then
    .error (.value "invalid incoming message")
  else if ¬ (1 ≤ topic.length ∧ topic.length ≤ 200) then .error (.value "invalid topic")
  else
    match s.job sourceId with
    | some _ => .ok ((), s)
    | none => .ok ((), { s with jobs := s.jobs ++
        [⟨sourceId, topic, content, none, .received, none, none, none, none, projectId⟩] })

def set (sourceId : ℕ) (patch : JobPatch) (s : Store) : Except Exc (Unit × Store) :=
  .ok ((), s.updateJobs (fun j => j.sourceId = sourceId) patch.apply)

def pending (s : Store) : List Job :=
  ((s.jobs.filter fun j => j.phase ∈ [.received, .prepared, .ready, .sending]).insertionSort
    fun a b => a.sourceId ≤ b.sourceId).take 20

/-- `State.watch_approval`, of an identifier that is a UUID. -/
def watchApproval (sourceId : ℕ) (actionId : String) (s : Store) : Except Exc (Unit × Store) :=
  match s.followup actionId with
  | some _ => .ok ((), s)
  | none => .ok ((), { s with followups := s.followups ++
      [⟨actionId, sourceId, .waiting, none, none⟩] })

def approvalJobs (s : Store) : List ApprovalJob :=
  ((s.followups.filter fun f => f.phase = .waiting ∨ f.phase = .ready).filterMap fun f =>
    (s.job f.sourceId).map fun j => ⟨f, j.missionId, j.topic⟩).take 20

def setApproval (actionId : String) (patch : FollowupPatch) (s : Store) :
    Except Exc (Unit × Store) :=
  .ok ((), s.updateFollowups (fun f => f.actionId = actionId) patch.apply)

inductive Tx where
  | repair
  | accept (sourceId : ℕ) (topic content projectId : String)
  | set (sourceId : ℕ) (patch : JobPatch)
  | get (sourceId : ℕ)
  | pending
  | cursor
  | setCursor (value : ℕ)
  | watchApproval (sourceId : ℕ) (actionId : String)
  | approvalJobs
  | setApproval (actionId : String) (patch : FollowupPatch)

abbrev Tx.Reply : Tx → Type
  | .get _ => Option Job
  | .pending => List Job
  | .cursor => Option ℕ
  | .approvalJobs => List ApprovalJob
  | _ => Unit

def Tx.run : (t : Tx) → Store → Except Exc (t.Reply × Store)
  | .repair, s => .ok ((), s.repair)
  | .accept sourceId topic content projectId, s =>
    OpsNative.accept sourceId topic content projectId s
  | .set sourceId patch, s => OpsNative.set sourceId patch s
  | .get sourceId, s => .ok (s.job sourceId, s)
  | .pending, s => .ok (OpsNative.pending s, s)
  | .cursor, s => .ok (s.cursor, s)
  | .setCursor value, s => .ok ((), { s with cursor := some value })
  | .watchApproval sourceId actionId, s => OpsNative.watchApproval sourceId actionId s
  | .approvalJobs, s => .ok (OpsNative.approvalJobs s, s)
  | .setApproval actionId patch, s => OpsNative.setApproval actionId patch s

end OpsNative
