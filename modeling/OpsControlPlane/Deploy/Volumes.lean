import OpsControlPlane.Lib.Fallible
import OpsControlPlane.Deploy.State

/-!
# The volumes of a rollback

`preserveTransactionDockerVolumes` retains the volumes of Docker: it writes in the journal that it
will, renames them to their archive, and writes that it did. It may be killed anywhere, and is then
called again with what `transaction.json` says.
-/

namespace OpsVolumes

open Calls OpsDeploy

variable {α : Type}

/-! ## The host -/

inductive Kind where
  | directory | link | other
deriving DecidableEq

/-- What `os.lstat` says. -/
structure Metadata where
  kind : Kind
  (uid gid mode : ℕ)
deriving DecidableEq

structure Volumes (α : Type) where
  metadata : Metadata
  data : α

/-- The volumes are at `DOCKER_VOLUMES_PATH` or at `expected_destination`, which is in
`recovered_root` and this in `ZULIP_RECOVERED_DATA_ROOT`. -/
structure Host (α : Type) where
  journal : Transaction
  source : Option (Volumes α)
  (root recovered : Option Metadata)
  destination : Option (Volumes α)

inductive Place where
  | source | destination
deriving DecidableEq

inductive Folder where
  | root | recovered
deriving DecidableEq

inductive Device where
  | sourceParent | rootParent | recovered
deriving DecidableEq

def Host.volumes (h : Host α) : Place → Option (Volumes α)
  | .source => h.source
  | .destination => h.destination

def Host.folder (h : Host α) : Folder → Option Metadata
  | .root => h.root
  | .recovered => h.recovered

def Host.setFolder (h : Host α) (m : Metadata) : Folder → Host α
  | .root => { h with root := some m }
  | .recovered => { h with recovered := some m }

inductive Fault where
  | rollbackFailed (message : String)
  | raised
deriving DecidableEq

inductive Op where
  | mountInventory
  | lexists (p : Place)
  | lstatVolumes (p : Place)
  | stDev (d : Device)
  | isThere (f : Folder)
  | mkdir (f : Folder)
  | chown (f : Folder)
  | chmod (f : Folder)
  | lstat (f : Folder)
  | rename
  | fsync
  | atomicJson (t : Transaction)

def Op.Reply : Op → Type
  | .mountInventory => List String
  | .lexists _ => Bool
  | .lstatVolumes _ => Metadata
  | .stDev _ => ℕ
  | .isThere _ => Bool
  | .lstat _ => Metadata
  | .mkdir _ | .chown _ | .chmod _ | .rename | .fsync | .atomicJson _ => Unit

abbrev VolumesI : Interface :=
  fallible Op.Reply Fault

/-- An operation may raise before or after its effect. -/
inductive Outcome where
  | done | refused | late
deriving DecidableEq

structure Choice where
  outcome : Outcome := .done
  mountpoints : List String := []
  device : ℕ := 0
  /-- The group of a new directory. -/
  gid : ℕ := 0
  leads : Bool := true

def orRaised {β : Type} : Option β → Except Fault β
  | some b => .ok b
  | none => .error .raised

/-- The answer of an operation that is not refused, and its effect. -/
def perform (x : Choice) (h : Host α) : (o : Op) → Except Fault o.Reply × Host α
  | .mountInventory => (.ok x.mountpoints, h)
  | .lexists p => (.ok (h.volumes p).isSome, h)
  | .lstatVolumes p => (orRaised ((h.volumes p).map Volumes.metadata), h)
  | .stDev _ => (.ok x.device, h)
  | .isThere f => (.ok ((h.folder f).any fun m => m.kind ≠ .link ∨ x.leads = true), h)
  | .mkdir f => match h.folder f with
    | some _ => (.error .raised, h)
    | none =>
      if f = .recovered ∧ h.root = none then (.error .raised, h)
      else (.ok (), h.setFolder ⟨.directory, 0, x.gid, 0o700⟩ f)
  | .chown f => match h.folder f with
    | none => (.error .raised, h)
    | some m => (.ok (), h.setFolder { m with uid := 0, gid := 0 } f)
  | .chmod f => match h.folder f with
    | none => (.error .raised, h)
    | some m => (.ok (), h.setFolder { m with mode := 0o700 } f)
  | .lstat f => (orRaised (h.folder f), h)
  | .rename => match h.source, h.destination with
    | some v, none =>
      if h.recovered = none then (.error .raised, h)
      else (.ok (), { h with source := none, destination := some v })
    | _, _ => (.error .raised, h)
  | .fsync => (.ok (), h)
  | .atomicJson t => (.ok (), { h with journal := t })

def act (o : Op) (x : Choice) (h : Host α) : Except Fault o.Reply × Host α :=
  match o, x.outcome with
  -- `os.path.lexists` does not raise
  | .lexists p, _ => perform x h (.lexists p)
  | o, .done => perform x h o
  | _, .refused => (.error .raised, h)
  | o, .late => (.error .raised, (perform x h o).2)

/-! ## The call -/

abbrev Preserve (β : Type) : Type :=
  Prog VolumesI Fault β

def op (o : Op) : Preserve o.Reply :=
  Prog.request o

def mountInventory : Preserve (List String) :=
  op .mountInventory

def lexists (p : Place) : Preserve Bool :=
  op (.lexists p)

def lstatVolumes (p : Place) : Preserve Metadata :=
  op (.lstatVolumes p)

def stDev (d : Device) : Preserve ℕ :=
  op (.stDev d)

def isThere (f : Folder) : Preserve Bool :=
  op (.isThere f)

def lstat (f : Folder) : Preserve Metadata :=
  op (.lstat f)

def rename : Preserve Unit :=
  op .rename

def fsync : Preserve Unit :=
  op .fsync

def atomicJson (t : Transaction) : Preserve Unit :=
  op (.atomicJson t)

def refuse (c : Prop) [Decidable c] (message : String) : Preserve Unit :=
  if c then Prog.fail (.rollbackFailed message) else pure ()

/-- `except OSError`. -/
def unavailable {β : Type} (message : String) (p : Preserve β) : Preserve β := do
  match ← Prog.attempt p with
  | .ok b => pure b
  | .error _ => Prog.fail (.rollbackFailed message)

/-- `IDENTIFIER_RE.fullmatch`. -/
def Identifier (s : String) : Prop :=
  let first (c : Char) : Bool := c.isLower || c.isDigit
  let other (c : Char) : Bool := first c || c == '.' || c == '_' || c == '-'
  2 ≤ s.length ∧ s.length ≤ 128 ∧ s.toList.head?.all first = true ∧ s.toList.all other = true

instance (s : String) : Decidable (Identifier s) := by
  unfold Identifier
  infer_instance

def dockerVolumesPath : String :=
  "/var/lib/docker/volumes"

def PathHasMount (path : String) (mountpoints : List String) : Prop :=
  ∃ mountpoint ∈ mountpoints, mountpoint = path ∨ (path ++ "/").toList <+: mountpoint.toList

instance (path : String) (mountpoints : List String) :
    Decidable (PathHasMount path mountpoints) := by
  unfold PathHasMount
  infer_instance

/-- The checks of the volumes before they are noted, and before they are renamed. -/
def checkSource : Preserve Unit := do
  let metadata ← unavailable "the Docker volume store is unavailable"
    (lstatVolumes .source)
  refuse (metadata.kind ≠ .directory ∨ metadata.uid ≠ 0)
    "the Docker volume store is unsafe to preserve"

/-- What is written before the volumes are renamed. -/
def start (metadata : Transaction) (sourceExists destinationExists : Bool) :
    Preserve Transaction := do
  refuse (destinationExists = true) "an untracked Docker volume archive already exists"
  if sourceExists then
    checkSource
    let sourceDevice ← unavailable "Docker volume preservation roots are unavailable"
      (stDev .sourceParent)
    let destinationDevice ← unavailable "Docker volume preservation roots are unavailable"
      (stDev .rootParent)
    refuse (sourceDevice ≠ destinationDevice) "Docker volume preservation is not an atomic rename"
  let destination :=
    if sourceExists then some (recoveredVolumes metadata.transactionId) else none
  let metadata := { metadata with docker := { metadata.docker with
    volumesPreservationStarted := true
    volumesPreservationPath := destination
    volumesPreserved := false } }
  atomicJson metadata
  return metadata

/-- `_validate_preserved_volumes_directory` of a parent. -/
def validateFolder (f : Folder) : Preserve Unit := do
  let metadata ← unavailable "the preserved Docker volume archive is unavailable"
    (lstat f)
  refuse (metadata.kind ≠ .directory ∨ metadata.uid ≠ 0 ∨ metadata.gid ≠ 0 ∨ metadata.mode ≠ 0o700)
    "the preserved Docker volume archive is unsafe"

/-- A directory above the archive. -/
def prepareFolder (f : Folder) : Preserve Unit := do
  if ← isThere f then
    validateFolder f
  else
    op (.mkdir f)
    op (.chown f)
    op (.chmod f)
    fsync

/-- The rename, with what is checked before it. -/
def moveVolumes : Preserve Unit := do
  checkSource
  prepareFolder .root
  prepareFolder .recovered
  let sourceDevice ← stDev .sourceParent
  let destinationDevice ← stDev .recovered
  refuse (sourceDevice ≠ destinationDevice) "Docker volume preservation is not an atomic rename"
  rename
  fsync
  fsync
  fsync

def complete (metadata : Transaction) : Preserve Unit := do
  let metadata' ← unavailable "the preserved Docker volume archive is unavailable"
    (lstatVolumes .destination)
  refuse (metadata'.kind ≠ .directory ∨ metadata'.uid ≠ 0)
    "the preserved Docker volume archive is unsafe"
  let remained ← lexists .source
  refuse (remained = true) "the Docker volume store remained after preservation"
  atomicJson { metadata with docker := { metadata.docker with volumesPreserved := true } }

def finish (metadata : Transaction) : Preserve Unit := do
  let sourceExists ← lexists .source
  let destinationExists ← lexists .destination
  refuse (sourceExists = true ∧ destinationExists = true)
    "Docker volume preservation has two conflicting copies"
  refuse (sourceExists = false ∧ destinationExists = false)
    "Docker volume preservation lost both copies"
  if sourceExists then moveVolumes
  complete metadata

def announce (metadata : Transaction) (sourceExists destinationExists : Bool) :
    Preserve Transaction :=
  if metadata.docker.volumesPreservationStarted then pure metadata
  else start metadata sourceExists destinationExists

def conclude (metadata : Transaction) : Preserve Unit :=
  if metadata.docker.volumesPreservationPath = none then do
    let sourceExists ← lexists .source
    let destinationExists ← lexists .destination
    refuse (sourceExists = true ∨ destinationExists = true)
      "Docker volumes appeared after the preservation WAL"
  else finish metadata

def preserveTransactionDockerVolumes (metadata : Transaction) : Preserve Unit := do
  let docker := metadata.docker
  let expected := recoveredVolumes metadata.transactionId
  refuse (¬Identifier metadata.transactionId)
    "saved Docker volume transaction identity is invalid"
  refuse (∃ path ∈ docker.volumesPreservationPath, path ≠ expected)
    "saved Docker volume preservation path is invalid"
  refuse (docker.volumesPreservationStarted = false ∧ docker.volumesPreservationPath ≠ none)
    "unstarted Docker volume preservation has a path"
  refuse (docker.volumesPreserved = true ∧
    (docker.volumesPreservationStarted = false ∨ docker.volumesPreservationPath = none))
    "saved Docker volume preservation state is inconsistent"
  let mountpoints ← mountInventory
  refuse (PathHasMount dockerVolumesPath mountpoints ∨ PathHasMount expected mountpoints)
    "a Docker volume path is still mounted"
  let sourceExists ← lexists .source
  let destinationExists ← lexists .destination
  let metadata ← announce metadata sourceExists destinationExists
  conclude metadata

end OpsVolumes
