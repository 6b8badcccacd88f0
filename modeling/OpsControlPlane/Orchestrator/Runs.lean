import OpsControlPlane.Orchestrator.Ledger

/-!
# The runs of the orchestrator

The tables of `Database` beside the ledger: the runs of the routes, and the outcomes that are
reported for their results. Each method is one transaction, so the calls of any number of threads
and processes are a list of transactions in the order of their commits (`afterAll`).
-/

namespace OpsOrchestrator

open Calendar Transaction

/-! ## Rows -/

/-- What `start_run` records of a route for good. -/
structure RunCall where
  (routeId missionId projectId taskType risk : String)
  requestedRole : Option String

structure RunRow extends RunCall where
  (status reason startedAt : String)
  finalRole : Option String := none
  finalProvider : Option String := none
  completedAt : Option String := none
  durationMs : Option ℤ := none

/-- What is reported for the result of a route. -/
structure Outcome where
  (routeId missionId projectId outcome : String)
  (qualityMilli correctionsRequired : ℤ)
  evidenceKind : String

/-- A row of `model_result_validations`. -/
structure ValidationRow extends Outcome where
  (taskType role providerId : String)
  providerAccountId : Option String
  (model recordedAt : String)

structure OrchestratorDb where
  usages : Ledger := []
  runs : List RunRow := []
  validations : List ValidationRow := []

/-! ## Transactions -/

/-- A transaction of the database. It reads the time when it writes. -/
abbrev DbTxn (α : Type) : Type :=
  Txn DateTime OrchestratorDb Exc α

def validationError (message : String) : Exc :=
  .other "ValidationError" message

/-- `initialize`, of a database that has its tables. -/
def initializeTx : DbTxn Unit := do
  let runs ← Txn.query OrchestratorDb.runs
  Txn.demand (∀ r ∈ runs, ∀ q ∈ runs, r.missionId = q.missionId → r.projectId = q.projectId)
    (.configuration "database contains a mission_id bound to multiple projects")

def startRun (c : RunCall) (reason : String) : DbTxn Unit := do
  let existing ← Txn.query fun db => row (fun r => r.missionId) c.missionId db.runs
  Txn.demand (∀ r ∈ existing, r.projectId = c.projectId)
    (validationError "mission_id is already bound to another project")
  let same ← Txn.query fun db => row (fun r => r.routeId) c.routeId db.runs
  Txn.demand (same.isNone = true) integrityError
  let t ← Txn.env
  Txn.modify fun db => { db with
    runs := db.runs ++ [{ c with status := "running", reason := reason, startedAt := utcNow t }] }

structure FinishArgs where
  (routeId status reason : String)
  durationMs : ℤ
  (finalRole finalProvider : Option String)

def isRunning (routeId : String) (r : RunRow) : Bool :=
  r.routeId = routeId ∧ r.status = "running"

def FinishArgs.apply (a : FinishArgs) (t : DateTime) (r : RunRow) : RunRow :=
  { r with
    status := a.status, reason := a.reason, completedAt := some (utcNow t),
    durationMs := some a.durationMs, finalRole := a.finalRole, finalProvider := a.finalProvider }

def finishRun (a : FinishArgs) : DbTxn Unit := do
  let changed ← Txn.query fun db => db.runs.countP (isRunning a.routeId)
  let t ← Txn.env
  Txn.modify fun db => { db with runs := update (isRunning a.routeId) (a.apply t) db.runs }
  Txn.demand (changed = 1) (.other "RuntimeError" "mission run state transition failed")

/-- The loop of `bind_provider_accounts`. -/
def bindAll : List (String × Option String) → DbTxn Unit
  | [] => pure ()
  | (providerId, none) :: accounts => do
    let usages ← Txn.query OrchestratorDb.usages
    Txn.demand (∀ r ∈ usages, r.providerId = providerId → r.providerAccountId = none)
      (.configuration ("historical account binding removed for provider " ++ providerId))
    bindAll accounts
  | (providerId, some id) :: accounts => do
    let usages ← Txn.query OrchestratorDb.usages
    Txn.demand (∀ r ∈ usages, r.providerId = providerId →
        r.providerAccountId = none ∨ r.providerAccountId = some id)
      (.configuration ("historical account binding changed for provider " ++ providerId))
    Txn.modify fun db => { db with
      usages := update (fun r => r.providerId = providerId ∧ r.providerAccountId = none)
        (fun r => { r with providerAccountId := some id }) db.usages }
    bindAll accounts

/-- `bind_provider_accounts`, of the providers in the order of their names. -/
def bindProviderAccounts (accounts : List (String × Option String)) : DbTxn Unit :=
  bindAll (accounts.insertionSort fun a b => a.1 ≤ b.1)

def RunRow.routed (r : RunRow) : Option (String × String) := do
  let providerId ← r.finalProvider
  let role ← r.finalRole
  if r.status = "routed" ∧ providerId ≠ "" ∧ role ≠ "" then some (providerId, role) else none

def latestUsage (routeId providerId : String) (rows : Ledger) : Option ReservationRow :=
  (rows.filter fun r => r.routeId = routeId ∧ r.providerId = providerId ∧
    r.status = .completed).argmax fun r => r.completedAt.getD ""

/-- The constraints of `model_result_validations`. -/
def Outcome.Allowed (o : Outcome) (rows : List ValidationRow) : Prop :=
  (∀ q ∈ rows, q.routeId ≠ o.routeId) ∧ o.outcome ∈ ["succeeded", "failed"] ∧
    (0 ≤ o.qualityMilli ∧ o.qualityMilli ≤ 1000) ∧
    (0 ≤ o.correctionsRequired ∧ o.correctionsRequired ≤ 1000) ∧
    o.evidenceKind ∈ ["deterministic_test", "human_review", "production_observation"]

instance (o : Outcome) (rows : List ValidationRow) : Decidable (o.Allowed rows) := by
  unfold Outcome.Allowed
  infer_instance

def recordModelValidation (o : Outcome) (providerAccounts : List (String × Option String)) :
    DbTxn ValidationRow := do
  let found ← Txn.query fun db => row (fun r => r.routeId) o.routeId db.runs
  let run ← Txn.expect found (validationError "route_id does not identify a recorded task")
  Txn.demand (run.missionId = o.missionId ∧ run.projectId = o.projectId)
    (validationError "outcome identity does not match the recorded route")
  let provider ← Txn.expect run.routed
    (validationError "only a routed model result can receive an outcome")
  let found ← Txn.query fun db => latestUsage o.routeId provider.1 db.usages
  let usage ← Txn.expect found
    (validationError "routed model result has no completed usage record")
  let rows ← Txn.query OrchestratorDb.validations
  Txn.demand (o.Allowed rows) (validationError "an outcome is already recorded for this route")
  let t ← Txn.env
  let v : ValidationRow :=
    { o with
      taskType := run.taskType, role := provider.2, providerId := provider.1,
      providerAccountId := (providerAccounts.lookup provider.1).join, model := usage.model,
      recordedAt := utcNow t }
  Txn.modify fun db => { db with validations := db.validations ++ [v] }
  return v

/-! ## Runs of the database -/

/-- A transaction of the database or of the ledger, which has the budgets of its process. -/
inductive DbTx where
  | initializeDb
  | ledger (budgets : List (String × ProviderAccountBudget)) (t : LedgerTx)
  | startRun (c : RunCall) (reason : String)
  | finishRun (a : FinishArgs)
  | bindProviderAccounts (accounts : List (String × Option String))
  | recordModelValidation (o : Outcome) (providerAccounts : List (String × Option String))

def DbTx.run : DbTx → DbTxn Unit
  | initializeDb => initializeTx
  | ledger budgets t => fun x db =>
    (t.run budgets x db.usages).map fun r => ((), { db with usages := r.2 })
  | startRun c reason => OpsOrchestrator.startRun c reason
  | finishRun a => OpsOrchestrator.finishRun a
  | bindProviderAccounts accounts => OpsOrchestrator.bindProviderAccounts accounts
  | recordModelValidation o accounts => do
    let _ ← OpsOrchestrator.recordModelValidation o accounts

/-- A transaction, its time, and the failure of the database at it. -/
structure DbCall where
  tx : DbTx
  time : DateTime
  fault : Option Exc := none

/-- What a call answers, and the tables after it. -/
def DbCall.commit (c : DbCall) (db : OrchestratorDb) : Except Exc Unit × OrchestratorDb :=
  match c.fault with
  | some e => (.error e, db)
  | none => c.tx.run.commit c.time db

def afterAll (calls : List DbCall) (db : OrchestratorDb) : OrchestratorDb :=
  calls.foldl (fun db c => (c.commit db).2) db

end OpsOrchestrator
