import OpsControlPlane.Memory.Catalog
import OpsControlPlane.Lib.CrashLogic

/-!
# The memory collector

The collector copies records, actions and mission states of the broker into the memory service,
and notes in a file of its own what it has stored. `capture` stores a record or an action once,
and `captureMission` stores each state of a mission as the successor of the previous one. The
memory service and the file have no transaction in common: the process may stop in between, and
an answer of the service may be lost.
-/

namespace OpsSync

open Calls Transaction OpsMemory

variable {F : Type} [Host F]

/-! ## Values -/

/-- Where an item of the broker is found; `source_uri` is its text. -/
structure Source where
  (missionId itemType itemId : String)
deriving DecidableEq

def Source.uri (s : Source) : String :=
  "ops-broker://missions/" ++ s.missionId ++ "/" ++ s.itemType ++ "/" ++ s.itemId

/-- The fields of what `payload` returns that differ from one item to another. -/
structure Value where
  project : String
  allowedRoles : List String
  source : Source
  (body sourceRef : String)
  supersedesId : Option String
deriving DecidableEq

/-- How the content of every value begins. -/
def heading : String :=
  "Historique Ops, à vérifier contre le broker. Mission "

def Value.content (v : Value) : String :=
  heading ++ v.source.missionId ++ "\n" ++ v.body

def valueOf (F : Type) [Host F] (project : String) (allowedRoles : List String) (source : Source)
    (body : String) : Value :=
  ⟨project, allowedRoles, source, body, Host.sha256 F body, none⟩

def Value.request (importance : F) (now : String) (v : Value) : IngestRequest F where
  actor := "codex-supervised"
  content := v.content
  project := v.project
  environment := "production"
  classification := .restricted
  category := "operations-history"
  kind := "information"
  tier := "cold"
  allowedRoles := v.allowedRoles
  sourceType := "agent-observation"
  sourceUri := v.source.uri
  sourceRef := v.sourceRef
  sourceAuthority := "ops-broker"
  metadata := v.source.missionId
  importance := importance
  validFrom := now
  validUntil := none
  supersedesId := v.supersedesId
  reviewed := false
  promote := false

/-! ## The file of the collector -/

structure Captured where
  source : Source
  (sourceRef memoryId : String)
deriving DecidableEq

structure MissionState where
  source : Source
  (digest memoryId : String)
deriving DecidableEq

/-- The memory service and the file of the collector. The clock is the latest time that was read,
and the log has each record that was stored for a state of a mission. -/
structure Stores (F : Type) where
  memory : Table F
  clock : String
  captured : List Captured
  projected : List (Source × String)
  missionStates : List MissionState
  log : List (Source × String)

def Stores.empty : Stores F :=
  ⟨[], "", [], [], [], []⟩

def Stores.existing (w : Stores F) (source : Source) (ref : String) : Option Captured :=
  row (fun c => (c.source, c.sourceRef)) (source, ref) w.captured

def Stores.missionState (w : Stores F) (source : Source) : Option MissionState :=
  row MissionState.source source w.missionStates

def replace {R κ : Type} [DecidableEq κ] (key : R → κ) (r : R) (rows : List R) : List R :=
  rows.filter (fun q => key q ≠ key r) ++ [r]

/-! ## Operations -/

/-- What goes wrong in a call. -/
inductive SyncError where
  /-- The memory refuses, or it is not reached, or its answer is lost. -/
  | memory (message : String)
  | sqlite (message : String)
deriving DecidableEq

/-- What the collector asks of its file and of the memory. -/
inductive SyncOp where
  | existing (source : Source) (ref : String)
  | projected (source : Source) (ref : String)
  | missionState (source : Source)
  /-- `ingest`, of a state of a mission or of another item. -/
  | ingest (mission : Bool) (value : Value)
  | commit (row : Captured)
  | commitMission (row : Captured) (state : MissionState)

abbrev SyncOp.Reply : SyncOp → Type
  | .existing _ _ => Option Captured
  | .projected _ _ => Bool
  | .missionState _ => Option MissionState
  | .ingest _ _ => String
  | _ => Unit

abbrev syncInterface : Interface :=
  ⟨SyncOp, fun o => Except SyncError o.Reply⟩

abbrev Sync (α : Type) : Type :=
  Prog syncInterface SyncError α

/-- Ask an operation, and fail as it fails. -/
def syncOp (o : SyncOp) : Sync o.Reply := do
  let r : Except SyncError o.Reply ← Prog.perform (I := syncInterface) o
  Prog.ofExcept r

/-- What the environment chooses at an operation. -/
structure SyncChoice (F : Type) where
  /-- The operation fails and changes nothing. -/
  fault : Option SyncError
  lost : Bool
  (receivedAt storedAt recordId : String)
  importance : F
  vector : List F
  (vectorModel authorityStatus : String)

def advance (clock now : String) : String :=
  if clock ≤ now then now else clock

def Stores.ingest (x : SyncChoice F) (mission : Bool) (v : Value) (w : Stores F) :
    Except SyncError String × Stores F :=
  let received := advance w.clock x.receivedAt
  let stored := advance received x.storedAt
  match ingestTx (v.request x.importance received) x.vector x.vectorModel x.authorityStatus stored
      x.recordId w.memory with
  | .error _ => (.error (.memory "Memory did not confirm persistence"), { w with clock := stored })
  | .ok ((record, _, _), memory) =>
    (if x.lost then .error (.memory "Memory did not confirm persistence") else .ok record.id,
      { w with
        memory := memory
        clock := stored
        log := if mission then w.log ++ [(v.source, record.id)] else w.log })

def performSync (o : SyncOp) (x : SyncChoice F) (w : Stores F) :
    Except SyncError o.Reply × Stores F :=
  match x.fault with
  | some e => (.error e, w)
  | none =>
    match o with
    | .existing source ref => (.ok (w.existing source ref), w)
    | .projected source ref => (.ok (decide ((source, ref) ∈ w.projected)), w)
    | .missionState source => (.ok (w.missionState source), w)
    | .ingest mission v => w.ingest x mission v
    | .commit row =>
      (.ok (), { w with
        captured := replace (fun c => (c.source, c.sourceRef)) row w.captured
        projected := w.projected ++ [(row.source, row.sourceRef)] })
    | .commitMission row state =>
      (.ok (), { w with
        captured := replace (fun c => (c.source, c.sourceRef)) row w.captured
        missionStates := replace MissionState.source state w.missionStates })

/-! ## Captures -/

def capture (v : Value) : Sync Bool := do
  let existing : Option Captured ← syncOp (.existing v.source v.sourceRef)
  match existing with
  | none => do
    let memoryId : String ← syncOp (.ingest false v)
    let _ : Unit ← syncOp (.commit ⟨v.source, v.sourceRef, memoryId⟩)
    return true
  | some row => do
    let projected : Bool ← syncOp (.projected v.source v.sourceRef)
    if projected then return false
    else do
      let memoryId : String ← syncOp (.ingest false { v with supersedesId := some row.memoryId })
      let _ : Unit ← syncOp (.commit ⟨v.source, v.sourceRef, memoryId⟩)
      return true

def successor (F : Type) [Host F] (v : Value) (previous : Option MissionState) : Value :=
  match previous with
  | none => v
  | some state =>
    { v with
      supersedesId := some state.memoryId
      sourceRef := Host.sha256 F (v.sourceRef ++ state.memoryId) }

def captureMission (F : Type) [Host F] (v : Value) : Sync Bool := do
  let previous : Option MissionState ← syncOp (.missionState v.source)
  if previous.any fun state => state.digest = v.sourceRef then return false
  else do
    let next := successor F v previous
    let memoryId : String ← syncOp (.ingest true next)
    let _ : Unit ← syncOp (.commitMission ⟨v.source, next.sourceRef, memoryId⟩
      ⟨v.source, v.sourceRef, memoryId⟩)
    return true

end OpsSync
