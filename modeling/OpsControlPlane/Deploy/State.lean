import OpsControlPlane.Lib.CrashLogic

/-!
# The journal of the deployment worker

The worker keeps two documents: `CURRENT`, which names a transaction with its status, and the
`transaction.json` of each transaction. Both are replaced atomically, so the last one written is the
one that is read, and a `Host` keeps what was written with the installation steps and the health
checks between, the newest first.
-/

namespace OpsDeploy

open Calls

/-! ## Documents -/

/-- `phase` of `transaction.json`. -/
inductive Phase where
  | snapshotting | snapshotted | installing | healthy | rolledBack
deriving DecidableEq

inductive Status where
  | deploying | healthy | rolledBack | rollbackFailed
deriving DecidableEq

/-- What `service_snapshot` says of a unit. -/
structure UnitState where
  (active enabled : Bool)
deriving DecidableEq

abbrev Services : Type :=
  List (String × UnitState)

/-- `docker` of `transaction.json`. -/
structure DockerRecord where
  installationAttempted : Bool := false
  restartSuppressionStarted : Bool := false
  restartSuppressed : Bool := false
  volumesPreservationStarted : Bool := false
  volumesPreservationPath : Option String := none
  volumesPreserved : Bool := false
  configParentCreationStarted : Bool := false
  rollbackPresetStarted : Bool := false
  rollbackPresetRemoved : Bool := false
deriving DecidableEq

structure Transaction where
  (transactionId releaseId backupPath : String)
  phase : Phase := .snapshotting
  managedPathsExisting : List String
  managedArchive : Option String := none
  serviceState : Services
  hermesSourceArchiveSha256 : String
  atlasInstallationAttempted : Bool := false
  docker : DockerRecord := {}
  rolledBack : Bool := false
deriving DecidableEq

structure Current where
  releaseId : String
  status : Status
  (transactionId backupPath : String)
deriving DecidableEq

def Transaction.current (t : Transaction) (status : Status) : Current :=
  ⟨t.releaseId, status, t.transactionId, t.backupPath⟩

def backupOf (transactionId : String) : String :=
  "/var/backups/ops-control-plane-deployment/" ++ transactionId

/-- `recovered_root / "docker-volumes"`. -/
def recoveredVolumes (transactionId : String) : String :=
  "/var/backups/zulip-local/recovered-" ++ transactionId ++ "/docker-volumes"

def managedFiles (backup : String) : String :=
  backup ++ "/managed-files.tar"

structure Manifest where
  (releaseId hermesSourceArchiveSha256 : String)
deriving DecidableEq

inductive Failure where
  | deployment (code : String)
  | other
deriving DecidableEq

/-! ## The host -/

/-- What happens that the journal is about. -/
inductive Event where
  /-- `transaction.json` of this backup is replaced. -/
  | recorded (backup : String) (t : Transaction)
  | announced (c : Current)
  | installed (backup : String)
  | passed (releaseId : String)
  | stopped (unit : String)
  | audited (event : String) (transactionId : String)
deriving DecidableEq

def current : List Event → Option Current
  | [] => none
  | .announced c :: _ => some c
  | _ :: es => current es

def record (backup : String) : List Event → Option Transaction
  | [] => none
  | .recorded b t :: es => if b = backup then some t else record backup es
  | _ :: es => record backup es

structure Host where
  history : List Event := []
  /-- The transactions with a directory in `BACKUP_ROOT`. -/
  backups : List String := []
  services : Services := []
  /-- `DOCKER_VOLUMES_PATH` exists. -/
  volumes : Bool := false
  archives : List String := []
deriving DecidableEq

/-! ## Operations -/

/-- What the worker asks of the host beyond its documents. -/
inductive Call where
  | command (name : String)
  | stop (unit : String)
  | install (backup : String) (name : String)
  | healthCheck (releaseId : String)
  | restoreServices (saved : Services)
  | verifyServices (saved : Services)
  | preserveVolumes (transactionId : String)
  /-- `atomic_json`, of the document of a transaction. -/
  | writeTransaction (t : Transaction)
  | writeCurrent (c : Current)
  | appendAudit (event : String) (transactionId : String)

inductive Op where
  | call (c : Call)
  | readCurrent
  | readTransaction (backup : String)
  /-- `capture_backup` up to its record: the validations, the new directory and the snapshots. -/
  | openBackup (m : Manifest)
  /-- Whether the volumes and their archive exist. -/
  | volumes (transactionId : String)

/-- An operation returns or raises. -/
def Op.Ret : Op → Type
  | .call _ => Unit
  | .readCurrent => Option Current
  | .readTransaction _ => Transaction
  | .openBackup _ => Transaction
  | .volumes _ => Bool × Bool

abbrev DeployI : Interface :=
  ⟨Op, fun o => Except Failure o.Ret⟩

abbrev Deploy (α : Type) : Type :=
  Prog DeployI Failure α

/-- How an operation ends. It may raise before or after its effect. -/
inductive Outcome where
  | done
  | refused (e : Failure)
  | late (e : Failure)
deriving DecidableEq

structure Choice where
  outcome : Outcome := .done
  /-- The time and the process in the identity of a transaction. -/
  suffix : String := ""
  existing : List String := []
  /-- The services and the volumes after a command. -/
  services : Services := []
  volumes : Bool := false

def Choice.opens (x : Choice) (m : Manifest) (h : Host) : Transaction where
  transactionId := m.releaseId ++ "-" ++ x.suffix
  releaseId := m.releaseId
  backupPath := backupOf (m.releaseId ++ "-" ++ x.suffix)
  managedPathsExisting := x.existing
  serviceState := h.services
  hermesSourceArchiveSha256 := m.hermesSourceArchiveSha256

def Call.effect (x : Choice) (h : Host) : Call → Host
  | .command _ => { h with services := x.services, volumes := x.volumes }
  | .stop unit => { h with history := .stopped unit :: h.history, services := x.services }
  | .install b _ =>
    { h with history := .installed b :: h.history, services := x.services, volumes := x.volumes }
  | .healthCheck r => if x.outcome = .done then { h with history := .passed r :: h.history } else h
  | .restoreServices _ => { h with services := x.services }
  | .verifyServices _ => h
  | .preserveVolumes id => { h with volumes := false, archives := id :: h.archives }
  | .writeTransaction t => { h with history := .recorded t.backupPath t :: h.history }
  | .writeCurrent c => { h with history := .announced c :: h.history }
  | .appendAudit e id => { h with history := .audited e id :: h.history }

/-- The answer of an operation that does not raise before its end, and its effect. -/
def perform (x : Choice) (h : Host) : (o : Op) → Except Failure o.Ret × Host
  | .call (.verifyServices saved) =>
    (if h.services = saved then .ok () else .error (.deployment "rollback_failed"), h)
  | .call c => (.ok (), c.effect x h)
  | .readCurrent => (.ok (current h.history), h)
  | .readTransaction b =>
    (match record b h.history with
      | some t => .ok t
      | none => .error (.deployment "rollback_unavailable"), h)
  | .openBackup m =>
    -- `mkdir(exist_ok=False)`
    if (x.opens m h).transactionId ∈ h.backups then (.error .other, h)
    else (.ok (x.opens m h), { h with backups := (x.opens m h).transactionId :: h.backups })
  | .volumes id => (.ok (h.volumes, decide (id ∈ h.archives)), h)

/-- An operation ends as the host decides. -/
def act (o : Op) (x : Choice) (h : Host) : Except Failure o.Ret × Host :=
  match x.outcome with
  | .done => perform x h o
  | .refused e => (.error e, h)
  | .late e => (.error e, (perform x h o).2)

end OpsDeploy
