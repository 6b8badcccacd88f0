import OpsControlPlane.Lib.Fallible
import Mathlib.Data.Nat.Notation

/-!
# Workflows over the broker

`run` is `Workflow.run` of one run identifier: it records the run and its steps in a local
database, asks the broker for an action a step, and records what became of it. A call may be
interrupted between any two of its operations, and the actions of the broker go on by themselves
meanwhile.
-/

namespace OpsWorkflow

open Calls

/-- `uuid.uuid5` of the run and a suffix, or the identifier of another client's request. -/
inductive RequestId where
  | action (step : String)
  | other (id : String)
deriving DecidableEq

/-- A step of a definition, over the parameters and the values that are compared. -/
structure StepOf (P V : Type) where
  (id runbook : String)
  parameters : P
  after : List String
  expect : List (String × V)

class Library where
  Parameters : Type
  [parameters : DecidableEq Parameters]
  Value : Type
  [value : DecidableEq Value]
  stored : Parameters → Parameters
  /-- `json.loads` of an object, as its `get`. -/
  readObject : String → Option (String → Value)
  fingerprint : List (StepOf Parameters Value) → String

export Library (Parameters Value)

attribute [instance] Library.parameters Library.value

variable [Library]

abbrev Step : Type :=
  StepOf Parameters Value

inductive Phase where
  | pending | requesting | waitingApproval | needsReview | succeeded
deriving DecidableEq

inductive Status where
  | succeeded | pendingApproval | other (name : String)
deriving DecidableEq

structure Result where
  returnCode : Option ℤ
  (timedOut truncated : Bool)
  stdout : String

structure Action where
  id : String
  requestId : RequestId
  (missionId runbookId : String)
  parameters : Parameters
  status : Status
  result : Option Result

def Expected (step : Step) (stdout : String) : Prop :=
  step.expect = [] ∨ ∃ data, Library.readObject stdout = some data ∧
    ∀ e ∈ step.expect, data e.1 = e.2

instance (step : Step) (stdout : String) : Decidable (Expected step stdout) :=
  match h : Library.readObject stdout with
  | none => decidable_of_iff (step.expect = []) (by simp [Expected, h])
  | some data => decidable_of_iff (step.expect = [] ∨ ∀ e ∈ step.expect, data e.1 = e.2)
      (by simp [Expected, h])

def Good (step : Step) (action : Action) : Prop :=
  action.status = .succeeded ∧ ∃ r ∈ action.result,
    r.returnCode = some 0 ∧ r.timedOut = false ∧ r.truncated = false ∧ Expected step r.stdout

instance (step : Step) (action : Action) : Decidable (Good step action) := by
  unfold Good
  infer_instance

def outcome (action : Action) (step : Step) : Phase :=
  if action.status = .pendingApproval then .waitingApproval
  else if Good step action then .succeeded
  else .needsReview

/-! ## The stores -/

structure RunRow where
  (name digest missionId : String)
deriving DecidableEq

structure StepRow where
  stepId : String
  actionId : Option String
  phase : Phase
deriving DecidableEq

/-- The rows of the run in the local database, the actions of the broker, and the requests for
actions that were made. -/
structure State where
  run : Option RunRow
  rows : List StepRow
  actions : List Action
  requested : List RequestId

structure Mission where
  (projectId status : String)

/-- What `run` asks of the database and of the broker. -/
inductive Op where
  | getMission (id : String)
  | readRun
  | listAuthorizedRunbooks
  | begin (row : RunRow) (steps : List String)
  | addMissionRecord
  | readRows
  | requesting (step : String)
  | getAction (id : String)
  | requestAction (requestId : RequestId) (missionId runbookId : String) (parameters : Parameters)
  | settle (step actionId : String) (phase : Phase)

abbrev Op.Reply : Op → Type
  | .getMission _ => Mission
  | .readRun => Option RunRow
  -- the runbooks of the project, with their classes
  | .listAuthorizedRunbooks => List (String × String)
  | .readRows => List StepRow
  | .getAction _ | .requestAction _ _ _ _ => Action
  | .begin _ _ | .addMissionRecord | .requesting _ | .settle _ _ _ => Unit

inductive Fault where
  | raised
  | keyError
  | valueError (message : String)
deriving DecidableEq

abbrev WorkflowI : Interface :=
  fallible Op.Reply Fault

/-- An operation may raise before or after its effect. -/
inductive Outcome where
  | done | refused | late

/-- What the broker decides, before an operation and in it. -/
structure Choice where
  outcome : Outcome
  progress : Action → Status × Option Result
  mission : Mission
  registry : List (String × String)
  /-- A new action, which the broker carries out at once unless it waits for an approval. -/
  actionId : String
  status : Status
  result : Option Result

/-- An action goes on until it has succeeded. -/
def Action.advance (progress : Action → Status × Option Result) (a : Action) : Action :=
  if a.status = .succeeded then a
  else { a with status := (progress a).1, result := (progress a).2 }

/-- The actions before an operation. -/
def State.advance (x : Choice) (s : State) : State :=
  { s with actions := s.actions.map (Action.advance x.progress) }

def addRows (rows : List StepRow) (steps : List String) : List StepRow :=
  steps.foldl (fun rows step =>
    if step ∈ rows.map StepRow.stepId then rows else rows ++ [⟨step, none, .pending⟩]) rows

def changeRow (step : String) (f : StepRow → StepRow) (rows : List StepRow) : List StepRow :=
  rows.map fun row => if row.stepId = step then f row else row

/-- The answer of an operation that does not raise, and its effect. -/
def perform (x : Choice) (s : State) : (o : Op) → Except Fault o.Reply × State
  | .getMission _ => (.ok x.mission, s)
  | .readRun => (.ok s.run, s)
  | .listAuthorizedRunbooks => (.ok x.registry, s)
  | .begin row steps =>
    (.ok (), { s with run := some (s.run.getD row), rows := addRows s.rows steps })
  | .addMissionRecord => (.ok (), s)
  | .readRows => (.ok s.rows, s)
  | .requesting step =>
    (.ok (), { s with rows := changeRow step (fun row =>
      { row with phase := .requesting }) s.rows })
  | .getAction id => match s.actions.find? fun a => a.id = id with
    | some a => (.ok a, s)
    | none => (.error .raised, s)
  | .requestAction requestId missionId runbookId parameters =>
    match s.actions.find? fun a => a.requestId = requestId with
    | some a =>
      if a.missionId = missionId ∧ a.runbookId = runbookId ∧
          a.parameters = Library.stored parameters then (.ok a, s)
      else (.error .raised, s)
    | none =>
      if x.actionId ∈ s.actions.map Action.id then (.error .raised, s)
      else
        let a : Action := ⟨x.actionId, requestId, missionId, runbookId,
          Library.stored parameters, x.status, x.result⟩
        (.ok a, { s with actions := s.actions ++ [a] })
  | .settle step actionId phase =>
    (.ok (), { s with
      rows := changeRow step (fun row => { row with actionId := some actionId, phase := phase })
        s.rows })

/-- A request is made, whatever becomes of it. -/
def State.note (s : State) : Op → State
  | .requestAction requestId _ _ _ => { s with requested := requestId :: s.requested }
  | _ => s

/-- An operation, after what went on by itself. -/
def act (o : Op) (x : Choice) (s : State) : Except Fault o.Reply × State :=
  match x.outcome with
  | .done => perform x ((s.advance x).note o) o
  | .refused => (.error .raised, (s.advance x).note o)
  | .late => (.error .raised, (perform x ((s.advance x).note o) o).2)

/-! ## A call -/

abbrev Workflow (β : Type) : Type :=
  Prog WorkflowI Fault β

def op (o : Op) : Workflow o.Reply :=
  Prog.request o

def getMission (id : String) : Workflow Mission :=
  op (.getMission id)

def readRun : Workflow (Option RunRow) :=
  op .readRun

def listAuthorizedRunbooks : Workflow (List (String × String)) :=
  op .listAuthorizedRunbooks

def begin (row : RunRow) (steps : List String) : Workflow Unit :=
  op (.begin row steps)

def addMissionRecord : Workflow Unit :=
  op .addMissionRecord

def readRows : Workflow (List StepRow) :=
  op .readRows

def requesting (step : String) : Workflow Unit :=
  op (.requesting step)

def getAction (id : String) : Workflow Action :=
  op (.getAction id)

def requestAction (requestId : RequestId) (missionId runbookId : String)
    (parameters : Parameters) : Workflow Action :=
  op (.requestAction requestId missionId runbookId parameters)

def settle (step actionId : String) (phase : Phase) : Workflow Unit :=
  op (.settle step actionId phase)

def refuse (condition : Prop) [Decidable condition] (e : Fault) : Workflow Unit :=
  if condition then .fail e else pure ()

/-- A call of `run`: the name, its definition and the mission. -/
structure Call where
  name : String
  steps : List Step
  missionId : String

def Call.row (c : Call) : RunRow :=
  ⟨c.name, Library.fingerprint c.steps, c.missionId⟩

def rowOf (rows : List StepRow) (step : String) : Option StepRow :=
  rows.find? fun row => row.stepId = step

def waits (rows : List StepRow) : List String → Except Fault Bool
  | [] => .ok false
  | d :: ds => match rowOf rows d with
    | none => .error .keyError
    | some row => if row.phase ≠ .succeeded then .ok true else waits rows ds

def actionOf (c : Call) (step : Step) : Option String → Workflow Action
  | some id => getAction id
  | none => requestAction (.action step.id) c.missionId step.runbook step.parameters

/-- The body of the loop for a step that is due. -/
def performStep (c : Call) (step : Step) (row : StepRow) : Workflow Unit := do
  requesting step.id
  let action ← actionOf c step row.actionId
  refuse (action.missionId ≠ c.missionId ∨ action.runbookId ≠ step.runbook ∨
    action.parameters ≠ step.parameters)
    (.valueError "Broker action does not match the workflow step")
  addMissionRecord
  settle step.id action.id (outcome action step)

def runStep (c : Call) (step : Step) : Workflow Unit := do
  let rows ← readRows
  match rowOf rows step.id with
  | none => .fail .keyError
  | some row =>
    if row.phase = .succeeded ∨ row.phase = .needsReview then pure ()
    else do
      let waiting ← Prog.ofExcept (waits rows step.after)
      if waiting then pure () else performStep c step row

def runSteps (c : Call) : List Step → Workflow Unit
  | [] => pure ()
  | step :: steps => do
    runStep c step
    runSteps c steps

structure Report where
  succeeded : Bool
  steps : List StepRow

/-- The checks before anything is recorded. -/
def check (c : Call) : Workflow Unit := do
  let mission ← getMission c.missionId
  refuse (mission.projectId ≠ "infra-shared" ∨ mission.status ∉ ["open", "active"])
    (.valueError "An open infra-shared mission is required")
  let existing ← readRun
  refuse (∃ row ∈ existing, row ≠ c.row)
    (.valueError "A recorded workflow cannot be changed during resumption")
  let registry ← listAuthorizedRunbooks
  refuse (∃ step ∈ c.steps, registry.lookup step.runbook ≠ some "A")
    (.valueError "The exact observation runbook is unavailable")

def run (c : Call) : Workflow Report := do
  check c
  begin c.row (c.steps.map StepOf.id)
  addMissionRecord
  runSteps c c.steps
  let states ← readRows
  return ⟨states.all fun row => row.phase = .succeeded, states⟩

end OpsWorkflow
