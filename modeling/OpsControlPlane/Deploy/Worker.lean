import OpsControlPlane.Deploy.State

/-!
# The deployment worker

`applyTransaction`, `explicitRollback` and what they call. The statements of a `try` are a list of
steps: a step assigns to the record that is in memory and calls the host, and where a call raises
the handler goes on with the record as it is then.
-/

namespace OpsDeploy

open Calls

/-! ## Calls -/

/-- An operation, whose exception is raised. -/
def ask (o : Op) : Deploy o.Ret :=
  Prog.perform (I := DeployI) o >>= Prog.ofExcept

def call (c : Call) : Deploy Unit :=
  ask (.call c)

def raise {α : Type} (code : String) : Deploy α :=
  .fail (.deployment code)

def calls : List Call → Deploy Unit
  | [] => pure ()
  | c :: cs => do
    call c
    calls cs

def commands (names : List String) : Deploy Unit :=
  calls (names.map .command)

/-- A call under a condition. -/
def providing (b : Bool) (p : Deploy Unit) : Deploy Unit :=
  if b then p else pure ()

/-- A statement: it assigns to the record, then calls. -/
structure Step where
  assign : Transaction → Transaction := id
  call : Transaction → Call

/-- The record behind the statements, and the exception if one is raised. -/
def steps : List Step → Transaction → Deploy (Transaction × Option Failure)
  | [], t => pure (t, none)
  | s :: ss, t => do
    match ← Prog.attempt (call (s.call (s.assign t))) with
    | .ok () => steps ss (s.assign t)
    | .error e => pure (s.assign t, some e)

def Step.run (name : String) : Step where
  call _ := .command name

/-- An assignment with `atomic_json` of the record. -/
def Step.write (assign : Transaction → Transaction) : Step where
  assign := assign
  call t := .writeTransaction t

def Step.install (name : String) : Step where
  call t := .install t.backupPath name

/-! ## Services -/

/-- The units of `stop_dependents`, in its order. -/
def dependents : List String :=
  ["ops-broker-audit-verify.timer", "ops-broker-backup.timer", "ops-broker-audit-verify.service",
    "ops-broker-backup.service", "ops-broker-backup-metric-success.service",
    "ops-broker-backup-metric-failure.service", "zulip-alertmanager-query.socket",
    "zulip-local-health.timer", "zulip-local-backup.timer", "zulip-alertmanager-query.service",
    "zulip-local-health.service", "zulip-local-backup.service", "zulip-approval-bridge.service",
    "zulip-local.service", "zulip-local-secrets.service", "hermes-gateway.service",
    "ops-orchestrator-hermes-facade.service", "ops-orchestrator-provider-finance.timer",
    "ops-orchestrator-provider-finance.service", "ops-orchestrator-metrics.timer",
    "ops-orchestrator-metrics.service", "ops-orchestrator.service",
    "ops-orchestrator-provider-finance-daemon.service", "ops-orchestrator-secrets.service"]

def stopDependents : Deploy Unit :=
  calls (dependents.map .stop)

/-! ## The snapshot -/

/-- `suppress_zulip_container_restarts`. No restart policy is recorded before: Docker is absent. -/
def suppressZulipContainerRestarts : List Step :=
  [.write fun t => { t with docker := { t.docker with restartSuppressionStarted := true } },
    .run "restart-suppress-marker",
    .write fun t => { t with docker := { t.docker with restartSuppressed := true } }]

def backupManagedFiles (t : Transaction) : List Step :=
  if t.managedPathsExisting = [] then []
  else
    [.run "backup-managed-files", .run "fsync-managed-files",
      { assign := fun t => { t with managedArchive := some (managedFiles t.backupPath) }
        call := fun _ => .command "sha256-managed-files" }]

/-- The statements of the `try` of `capture_backup`. -/
def snapshotSteps (t : Transaction) : List Step :=
  dependents.map (fun unit => { call := fun _ => .stop unit }) ++
    suppressZulipContainerRestarts ++ backupManagedFiles t ++
    [.run "sync-control-plane-filesystems",
      .write fun t => { t with phase := .snapshotted }]

/-! ## The end of a rollback -/

def verifyPreservedDockerVolumes (t : Transaction) : Deploy Unit := do
  if t.docker.volumesPreservationStarted = false then raise "rollback_failed"
  else
    let (source, _) ← ask (.volumes t.transactionId)
    if source then raise "rollback_failed"
    else match t.docker.volumesPreservationPath with
      | none => if t.docker.volumesPreserved then raise "rollback_failed" else pure ()
      | some path =>
        if path ≠ recoveredVolumes t.transactionId ∨ t.docker.volumesPreserved = false then
          raise "rollback_failed"
        else call (.command "validate-preserved-volumes")

def verifyTerminalRollback (t : Transaction) : Deploy Unit := do
  commands ["hermes-transaction-identity", "hermes-transaction-temps"]
  call (.verifyServices t.serviceState)
  commands ["noop-identity-baseline", "local-inference-snapshot", "finance-identity",
    "atlas-identity"]
  providing t.atlasInstallationAttempted (commands ["atlas-rpm-temporary-payloads"])
  providing t.docker.installationAttempted (commands ["docker-rpm-temporary-payloads"])
  commands ["docker-packages", "docker-service-snapshot", "docker-group", "docker-network"]
  verifyPreservedDockerVolumes t
  commands ["docker-runtime-state", "docker-unmanaged-paths", "docker-preset-parent",
    "sync-control-plane-filesystems"]

def Transaction.terminal (t : Transaction) : Transaction :=
  { t with rolledBack := true, phase := .rolledBack }

def writeDocker (t : Transaction) (d : DockerRecord) : Deploy Transaction := do
  call (.writeTransaction { t with docker := d })
  pure { t with docker := d }

/-- The record of the preservation, before the volumes are moved. -/
def startPreservation (t : Transaction) (source destination : Bool) : Deploy Transaction :=
  if t.docker.volumesPreservationStarted then pure t
  else if destination then raise "rollback_failed"
  else
    writeDocker t
      { t.docker with
        volumesPreservationStarted := true
        volumesPreservationPath :=
          if source then some (recoveredVolumes t.transactionId) else none
        volumesPreserved := false }

def moveVolumes (t : Transaction) : Deploy Transaction := do
  let (source, destination) ← ask (.volumes t.transactionId)
  if source && destination || !source && !destination then raise "rollback_failed"
  else do
    providing source (call (.preserveVolumes t.transactionId))
    call (.command "validate-preserved-volumes")
    writeDocker t { t.docker with volumesPreserved := true }

def preserveTransactionDockerVolumes (t : Transaction) : Deploy Transaction :=
  let d := t.docker
  if (∃ path ∈ d.volumesPreservationPath, path ≠ recoveredVolumes t.transactionId) ∨
      d.volumesPreservationStarted = false ∧ d.volumesPreservationPath ≠ none ∨
      d.volumesPreserved = true ∧
        (d.volumesPreservationStarted = false ∨ d.volumesPreservationPath = none) then
    raise "rollback_failed"
  else do
    call (.command "mount-inventory")
    let (source, destination) ← ask (.volumes t.transactionId)
    let t ← startPreservation t source destination
    match t.docker.volumesPreservationPath with
    | none => if source || destination then raise "rollback_failed" else pure t
    | some _ => moveVolumes t

def completeDocker (t : Transaction) : Deploy Transaction :=
  if t.docker.installationAttempted then do
    commands ["quiesce-docker-runtime"]
    let t ← writeDocker t
      { t.docker with rollbackPresetStarted := true, rollbackPresetRemoved := false }
    commands ["docker-rollback-preset", "validate-docker-bundle",
      "rollback-complete-docker-bundle", "rollback-reinstall-docker-bundle", "docker-packages",
      "quiesce-docker-runtime"]
    pure t
  else do
    commands ["stop-docker-runtime"]
    pure t

def removeRollbackPreset (t : Transaction) : Deploy Transaction :=
  if t.docker.installationAttempted then do
    commands ["remove-docker-rollback-preset"]
    writeDocker t { t.docker with rollbackPresetRemoved := true }
  else pure t

def restoreDocker (t : Transaction) : Deploy Transaction := do
  let d := t.docker
  call (.command "validate-docker-record")
  if d.rollbackPresetRemoved = true ∧ d.rollbackPresetStarted = false ∨
      d.installationAttempted = false ∧
        (d.rollbackPresetStarted = true ∨ d.rollbackPresetRemoved = true) then
    raise "rollback_failed"
  else do
    providing d.configParentCreationStarted (commands ["remove-docker-staging"])
    let t ← completeDocker t
    let t ← preserveTransactionDockerVolumes t
    providing d.installationAttempted (commands ["docker-packages", "rollback-docker-packages"])
    commands ["remove-docker-state", "docker-packages", "rollback-docker-daemon-reload"]
    let t ← removeRollbackPreset t
    commands ["restore-docker-group", "docker-config-parent", "restore-docker-services",
      "docker-service-snapshot"]
    if d.restartSuppressionStarted then do
      commands ["restore-zulip-container-restarts", "docker-network"]
      pure t
    else do
      commands ["restart-suppress-marker-absent", "docker-network"]
      pure t

/-! ## `rollback_transaction` -/

/-- The archive of the managed files is authenticated before anything is removed. -/
def authenticateArchive (t : Transaction) : Deploy Unit :=
  if t.managedPathsExisting = [] then
    if t.managedArchive ≠ none then raise "rollback_failed" else pure ()
  else if t.managedArchive ≠ some (managedFiles t.backupPath) then raise "rollback_failed"
  else commands ["sha256-managed-files"]

/-- What is undone after the snapshot, before the services are restored. -/
def undo (t : Transaction) : Deploy Unit := do
  commands ["rollback-refresh-unit-state"]
  stopDependents
  commands ["rollback-disable-units", "rollback-stop-transient-units", "rollback-new-zulip",
    "stop-docker-runtime"]
  authenticateArchive t
  commands ["remove-managed-files"]
  providing (t.managedPathsExisting ≠ []) (commands ["restore-managed-files"])
  commands ["rollback-update-ca-trust", "rollback-daemon-reload", "restore-atlas"]

def settle (checks : List String) (t : Transaction) : Deploy Unit := do
  call (.restoreServices t.serviceState)
  let t ← restoreDocker t
  commands ["restore-local-inference", "restore-finance-identity"]
  call (.verifyServices t.serviceState)
  commands (checks ++ ["sync-control-plane-filesystems"])
  verifyTerminalRollback t
  call (.writeTransaction t.terminal)
  call (.appendAudit "deployment_rolled_back" t.transactionId)

def rollbackTransaction (t : Transaction) : Deploy Unit := do
  commands ["hermes-transaction-identity"]
  if t.rolledBack then verifyTerminalRollback t
  else match t.phase with
    | .rolledBack => raise "rollback_failed"
    -- only services may have stopped
    | .snapshotting => settle [] t
    | _ => do
      undo t
      settle ["transient-units"] t

/-! ## `capture_backup` -/

/-- The `try` of the handler of `capture_backup`. -/
def restoreSnapshot (t : Transaction) : Deploy Unit := do
  call (.restoreServices t.serviceState)
  call (.verifyServices t.serviceState)
  providing t.docker.restartSuppressionStarted (commands ["restore-zulip-container-restarts"])
  commands ["sync-control-plane-filesystems"]
  verifyTerminalRollback t
  call (.writeTransaction t.terminal)
  call (.writeCurrent (t.current .rolledBack))
  call (.appendAudit "deployment_snapshot_failed" t.transactionId)

def captureBackup (m : Manifest) : Deploy Transaction := do
  let t ← ask (.openBackup m)
  call (.writeTransaction t)
  call (.writeCurrent (t.current .deploying))
  call (.appendAudit "deployment_snapshot_started" t.transactionId)
  match ← steps (snapshotSteps t) t with
  | (t, none) => pure t
  | (t, some backupError) =>
    match ← Prog.attempt (restoreSnapshot t) with
    | .ok () => .fail backupError
    | .error _ => do
      call (.writeCurrent (t.current .rollbackFailed))
      raise "backup_recovery_failed"

/-! ## `_apply_transaction` -/

def recoverInterruptedTransaction : Deploy Unit := do
  match ← ask .readCurrent with
  | none => pure ()
  | some c =>
    match c.status with
    | .rollbackFailed => raise "rollback_required"
    | .healthy => pure ()
    | .rolledBack => pure ()
    | .deploying => do
      -- `latest_transaction`
      let t ← ask (.readTransaction c.backupPath)
      match ← Prog.attempt (rollbackTransaction t) with
      | .ok () => do
        call (.writeCurrent (t.current .rolledBack))
        call (.appendAudit "interrupted_deployment_recovered" t.transactionId)
      | .error _ => do
        call (.writeCurrent (t.current .rollbackFailed))
        call (.appendAudit "interrupted_deployment_recovery_failed" t.transactionId)
        raise "rollback_failed"

def currentIsHealthy (m : Manifest) : Deploy Bool := do
  match ← Prog.attempt (ask .readCurrent) with
  | .ok (some c) =>
    if c.releaseId = m.releaseId ∧ c.status = .healthy then do
      match ← Prog.attempt (call (.healthCheck m.releaseId)) with
      | .ok () => pure true
      | .error (.deployment _) => pure false
      | .error .other => .fail .other
    else pure false
  | .ok none => pure false
  | .error (.deployment _) => pure false
  | .error .other => .fail .other

def installRelease : List Step :=
  [.install "preserve-legacy-hermes-source", .install "disable-local-inference",
    .write fun t => { t with docker := { t.docker with installationAttempted := true } },
    .install "install-docker", .write id,
    .write fun t => { t with docker := { t.docker with configParentCreationStarted := true } },
    .install "configure-docker"] ++
  dependents.map (fun unit => { call := fun _ => .stop unit }) ++
  [.install "remove-hermes-marker", .install "install-orchestrator",
    .write fun t => { t with atlasInstallationAttempted := true },
    .install "install-atlas", .run "verify-atlas", .install "install-hermes",
    .install "install-zulip-local", .install "start-zulip-secrets",
    .run "docker-route-baseline", .install "initialize-zulip", .install "provision-zulip-realm",
    .install "enable-zulip", .install "enable-orchestrator", .install "enable-hermes",
    .install "install-zulip-bridge"]

/-- The statements of the inner `try` of `_apply_transaction` up to the health check. -/
def installSteps : List Step :=
  .write (fun t => { t with phase := .installing }) :: installRelease

/-- Its statements from the health check on. -/
def commitSteps : List Step :=
  [{ call := fun t => .healthCheck t.releaseId },
    .run "sync-control-plane-filesystems",
    .write fun t => { t with phase := .healthy },
    { call := fun t => .writeCurrent (t.current .healthy) },
    { call := fun t => .appendAudit "deployment_succeeded" t.transactionId }]

/-- What `_apply_transaction` returns. -/
inductive Applied where
  | alreadyCurrent
  | healthy (transactionId : String)
deriving DecidableEq

/-- The handler of the inner `try`. -/
def abandon (t : Transaction) (deploymentError : Failure) : Deploy Applied := do
  let result ← Prog.attempt (rollbackTransaction t)
  let status : Status := match result with
    | .ok () => .rolledBack
    | .error _ => .rollbackFailed
  call (.writeCurrent (t.current status))
  call (.appendAudit "deployment_failed" t.transactionId)
  match result with
  | .error _ => raise "rollback_failed"
  | .ok () =>
    match deploymentError with
    | .deployment code => raise code
    | .other => raise "deployment_failed"

def applyTransaction (m : Manifest) : Deploy Applied := do
  recoverInterruptedTransaction
  let alreadyHealthy ← currentIsHealthy m
  commands ["preflight"]
  if alreadyHealthy then pure .alreadyCurrent
  else do
    commands ["stage-release"]
    let t ← captureBackup m
    call (.writeCurrent (t.current .deploying))
    call (.appendAudit "deployment_started" t.transactionId)
    match ← steps (installSteps ++ commitSteps) t with
    | (t, none) => pure (.healthy t.transactionId)
    | (t, some deploymentError) => abandon t deploymentError

/-- `explicit_rollback`. It returns whether the transaction was rolled back before. -/
def explicitRollback (m : Manifest) : Deploy Bool := do
  match ← ask .readCurrent with
  | none => raise "rollback_unavailable"
  | some c => do
    let t ← ask (.readTransaction c.backupPath)
    if t.releaseId ≠ m.releaseId ∨
        t.hermesSourceArchiveSha256 ≠ m.hermesSourceArchiveSha256 then
      raise "rollback_unavailable"
    else do
      rollbackTransaction t
      call (.writeCurrent (t.current .rolledBack))
      pure t.rolledBack

end OpsDeploy
