import Mathlib.Data.List.SplitOn
import OpsControlPlane.Lib.JsonText
import OpsControlPlane.Desktop.Credentials

/-!
# Release plans

`buildReleasePlan` checks a release and hashes what its approval is about. `applyRelease` builds the
plan once to look its approval up, and once more under the lock of the resource. `Mutation` is what
a run changes, as `_stage_release`, `_switch_current` and `_control_services` do it.

A manifest and a registry are those that `load_release_manifest` and `load_release_targets` return.
-/

namespace OpsPlans

open JsonText
open OpsKeys (Bytes utf8)

structure OpsError where
  (code message : String)
deriving DecidableEq

/-! ## Documents -/

inductive Kind where
  | file | directory | symlink | other
deriving DecidableEq

structure Member where
  name : List Char
  kind : Kind
  size : ℤ
  mode : ℕ
  content : Bytes

class Library where
  Flt : Type
  [text : FloatText Flt]
  [lawful : LawfulFloatText Flt]
  /-- `sha256_bytes`, and `sha256_file` of the content of a file. -/
  sha256 : Bytes → String
  /-- `tarfile`, if it can open the archive. -/
  archive : Bytes → Option (List Member)

export Library (Flt)

attribute [instance] Library.text Library.lawful

variable [Library]

abbrev Dict : Type :=
  List (String × Json Flt)

def canonicalJson (value : Json Flt) : Bytes :=
  utf8 (canonical value)

/-- What `load_release_manifest` returns. -/
structure Manifest where
  (releaseId targetId project version commit build changeTicket artifactPath : String)
  artifactSha256 : String
  persistentPaths : List String

def strings (l : List String) : Json Flt :=
  .arr (l.map Json.str)

/-- The dictionary of a manifest. Its version, format and migration have one value each. -/
def Manifest.dict (m : Manifest) : Dict :=
  [("schema_version", .int 1), ("release_id", .str m.releaseId), ("target_id", .str m.targetId),
    ("project", .str m.project), ("version", .str m.version), ("commit", .str m.commit),
    ("build", .str m.build), ("change_ticket", .str m.changeTicket),
    ("artifact", .obj [("path", .str m.artifactPath), ("format", .str "tar"),
      ("sha256", .str m.artifactSha256)]),
    ("migration", .str "none"), ("persistent_paths", strings m.persistentPaths)]

structure Backup where
  required : Bool
  evidencePath : String
  maximumAgeSeconds : ℕ
  requireIntegrity : Bool

structure ReleaseTarget where
  id : String
  enabled : Bool
  (project resourceId environment incomingRoot releasesRoot persistentRoot currentLink : String)
  (persistentPaths serviceUnits : List String)
  healthChecks : List Dict
  checks_wf : ∀ check ∈ healthChecks, Wf (.obj check)
  (minFreeBytes maxUnpackedBytes : ℕ)
  backup : Backup
  rollbackAutomatic : Bool
  approvers : List String
  (auditEventsPath lockRoot : String)

/-! ## The host -/

structure Info where
  kind : Kind
  uid : ℕ
  /-- `st_mode & 0o022`. -/
  sharedWrite : Bool
  /-- `st_mode & 0o077`. -/
  sharedAccess : Bool

structure Approval where
  schemaVersion : ℤ
  (actionClass action resourceId targetId planHash approvedBy approvalId : String)
  (approvedAt expiresAt : ℤ)

/-- A manifest, a registry, and the files of a host at one time. -/
structure World where
  manifest : Except OpsError Manifest
  targets : Except OpsError (List ReleaseTarget)
  euid : ℕ
  lstat : String → Option Info
  content : String → Bytes
  /-- `Path.resolve(strict=True)`, as the parts of the path. -/
  resolve : String → Option (List String)
  /-- `shutil.disk_usage`. -/
  free : String → Option ℕ
  /-- `_probe_backup`, after the checks of the evidence: its `snapshot_id`. -/
  probeBackup : ReleaseTarget → Except OpsError String
  approvals : Option Info
  approval : String → Option (Info × Approval)
  now : ℤ

/-! ## The plan -/

def parts (name : List Char) : List (List Char) :=
  (name.splitOn '/').filter fun part => part ≠ [] ∧ part ≠ ['.']

def maxArchiveFiles : ℕ :=
  20000

local instance lawfulBEq_chars : LawfulBEq (List Char) :=
  List.instLawfulBEq

def checkMember (target : ReleaseTarget) (total : ℤ) (m : Member) : Except OpsError ℤ :=
  if m.name.head? = some '/' ∨ parts m.name = [] ∨ ['.', '.'] ∈ parts m.name then
    .error ⟨"unsafe_archive", "unsafe archive path: " ++ String.ofList m.name⟩
  else if m.kind ≠ .file ∧ m.kind ≠ .directory then
    .error ⟨"unsafe_archive", "unsupported archive entry: " ++ String.ofList m.name⟩
  else if parts m.name = [".ops-release.json".toList] then
    .error ⟨"unsafe_archive", "artifact may not provide reserved release metadata"⟩
  else match target.persistentPaths.find? fun p => parts p.toList <+: parts m.name with
    | some p =>
      .error ⟨"persistent_collision", "artifact attempts to overwrite persistent path: " ++ p⟩
    | none =>
      if m.kind = .directory then .ok total
      else if m.size < 0 then .error ⟨"unsafe_archive", "archive has a negative file size"⟩
      else if (target.maxUnpackedBytes : ℤ) < total + m.size then
        .error ⟨"unsafe_archive", "archive exceeds max_unpacked_bytes"⟩
      else .ok (total + m.size)

def checkMembers (target : ReleaseTarget) (count : ℕ) (total : ℤ) :
    List Member → Except OpsError ℤ
  | [] => .ok total
  | m :: ms =>
    if maxArchiveFiles ≤ count then .error ⟨"unsafe_archive", "archive contains too many entries"⟩
    else do
      let total ← checkMember target total m
      checkMembers target (count + 1) total ms

def archiveMembers (artifact : Bytes) (target : ReleaseTarget) :
    Except OpsError (List Member × ℤ) :=
  match Library.archive artifact with
  | none => .error ⟨"unsafe_archive", "artifact is not a readable tar archive"⟩
  | some members => do
    let total ← checkMembers target 0 0 members
    return (members, total)

def ensureUnder (w : World) (root path field : String) : Except OpsError (List String) :=
  match w.resolve root, w.resolve path with
  | some r, some p =>
    if p = r ∨ ¬r <+: p then .error ⟨"path_escape", field ++ " escapes its allowlisted root"⟩
    else .ok p
  | _, _ => .error ⟨"FileNotFoundError", field⟩

def currentRelease (w : World) (target : ReleaseTarget) : Except OpsError (Option (List String)) :=
  match w.lstat target.currentLink with
  | none => .ok none
  | some info =>
    if info.kind ≠ .symlink then
      .error ⟨"unsafe_current", "current path must be a symbolic link"⟩
    else if w.resolve target.currentLink = none then
      .error ⟨"unsafe_current", "current link is broken"⟩
    else (ensureUnder w target.releasesRoot target.currentLink "current link").map some

def backupEvidence (w : World) (target : ReleaseTarget) : Except OpsError (Option String) :=
  if target.backup.required = false then .ok none
  else match w.lstat target.backup.evidencePath with
    | none => .error ⟨"evidence_missing", "required backup evidence is missing"⟩
    | some info =>
      if info.kind ≠ .file then
        .error ⟨"evidence_untrusted", "backup evidence must be a regular non-symlink file"⟩
      else if target.environment = "production" ∧ (info.uid ≠ 0 ∨ info.sharedWrite = true) then
        .error ⟨"evidence_untrusted",
          "production backup evidence must be root-owned and not writable by group/others"⟩
      else (w.probeBackup target).map some

def parent (path : String) : String :=
  String.ofList ((path.toList.reverse.dropWhile fun c => c ≠ '/').tail.reverse)

/-- One directory of `_validate_production_target_paths`. -/
def checkDirectory (w : World) (directory : String) : Except OpsError Unit :=
  match w.lstat directory with
  | none => .error ⟨"target_unprepared", "production directory is missing: " ++ directory⟩
  | some info =>
    if info.kind ≠ .directory ∨ info.uid ≠ 0 ∨ info.sharedWrite = true then .error
      ⟨"target_untrusted", "production directory must be protected and root-owned: " ++ directory⟩
    else .ok ()

def validateTargetPaths (w : World) (target : ReleaseTarget) : Except OpsError Unit := do
  checkDirectory w target.incomingRoot
  checkDirectory w target.releasesRoot
  checkDirectory w target.persistentRoot
  checkDirectory w (parent target.currentLink)
  checkDirectory w (parent target.auditEventsPath)
  checkDirectory w target.lockRoot
  match w.lstat target.auditEventsPath with
  | none => .ok ()
  | some info =>
    if info.kind ≠ .file ∨ info.uid ≠ 0 ∨ info.sharedWrite = true then
      .error ⟨"target_untrusted", "production release audit log is not protected"⟩
    else .ok ()

def refuse (condition : Prop) [Decidable condition] (code message : String) :
    Except OpsError Unit :=
  if condition then .error ⟨code, message⟩ else .ok ()

def findTarget (w : World) (m : Manifest) : Except OpsError ReleaseTarget := do
  let targets ← w.targets
  match targets.find? fun t => t.id = m.targetId with
  | none => .error ⟨"unknown_target", "release target is not registered"⟩
  | some target => .ok target

def checkTarget (w : World) (m : Manifest) (target : ReleaseTarget) : Except OpsError Unit := do
  refuse (target.enabled = false) "target_disabled" "release target is disabled"
  refuse (m.project ≠ target.project) "scope_mismatch"
    "release project does not match target project"
  refuse (m.persistentPaths ≠ target.persistentPaths) "persistent_mismatch"
    "manifest persistent paths must exactly match the reviewed target"
  if target.environment = "production" then validateTargetPaths w target else .ok ()

def checkOwners (w : World) (m : Manifest) (target : ReleaseTarget) : Except OpsError Unit := do
  refuse (w.euid ≠ 0) "permission_denied" "production release planning must run as root"
  refuse (¬∃ info ∈ w.lstat m.artifactPath, info.uid = 0 ∧ info.sharedWrite = false)
    "artifact_untrusted" "production artifact must be root-owned and not writable by group/others"
  refuse (¬∃ info ∈ w.lstat target.incomingRoot,
      info.uid = 0 ∧ info.sharedWrite = false ∧ info.kind = .directory)
    "artifact_untrusted" "production incoming_root must be a protected root-owned directory"

def checkOwner (w : World) (m : Manifest) (target : ReleaseTarget) : Except OpsError Unit :=
  if target.environment = "production" then checkOwners w m target else .ok ()

def checkArtifact (w : World) (m : Manifest) (target : ReleaseTarget) : Except OpsError Unit := do
  refuse (¬∃ info ∈ w.lstat m.artifactPath, info.kind = .file) "artifact_missing"
    "artifact must be a regular non-symlink file"
  let _ ← ensureUnder w target.incomingRoot m.artifactPath "artifact"
  checkOwner w m target
  refuse (target.maxUnpackedBytes < (w.content m.artifactPath).length) "artifact_too_large"
    "artifact exceeds max_unpacked_bytes before extraction"
  refuse (Library.sha256 (w.content m.artifactPath) ≠ m.artifactSha256) "checksum_mismatch"
    "artifact SHA-256 does not match the manifest"

def checkSpace (w : World) (target : ReleaseTarget) (unpacked : ℤ) : Except OpsError Unit :=
  match w.free target.releasesRoot with
  | none => .error ⟨"target_unprepared", "releases_root does not exist"⟩
  | some free =>
    refuse ((free : ℤ) < max (target.minFreeBytes : ℤ) (unpacked * 2 + 16 * 1024 * 1024))
      "insufficient_space" "not enough free space for staging and rollback"

def ReleaseTarget.material (t : ReleaseTarget) : Dict :=
  [("id", .str t.id), ("project", .str t.project), ("resource_id", .str t.resourceId),
    ("environment", .str t.environment), ("persistent_paths", strings t.persistentPaths),
    ("service_units", strings t.serviceUnits), ("health_checks", .arr (t.healthChecks.map .obj)),
    ("rollback_automatic", .bool t.rollbackAutomatic)]

/-- A text, or `None`. -/
def optional : Option String → Json Flt
  | none => .null
  | some s => .str s

/-- What `build_release_plan` finds. -/
structure Found where
  manifest : Manifest
  target : ReleaseTarget
  members : List Member
  unpacked : ℤ
  current : Option (List String)
  backup : Option String

def nameOf (path : List String) : String :=
  path.getLastD ""

/-- `stable`. The artifact has the digest of the manifest. -/
def Found.stable (f : Found) : Dict :=
  [("schema_version", .int 1), ("manifest", .obj f.manifest.dict),
    ("target", .obj f.target.material), ("artifact_sha256", .str f.manifest.artifactSha256),
    ("current_release", optional (f.current.map nameOf)),
    ("archive_entries", .int f.members.length), ("unpacked_bytes", .int f.unpacked),
    ("backup_snapshot", optional f.backup)]

def Found.planHash (f : Found) : String :=
  Library.sha256 (canonicalJson (.obj f.stable))

def buildReleasePlan (w : World) : Except OpsError Found := do
  let manifest ← w.manifest
  let target ← findTarget w manifest
  checkTarget w manifest target
  checkArtifact w manifest target
  let (members, unpacked) ← archiveMembers (w.content manifest.artifactPath) target
  let current ← currentRelease w target
  let backup ← backupEvidence w target
  checkSpace w target unpacked
  return ⟨manifest, target, members, unpacked, current, backup⟩

/-! ## The approval -/

def verifyApproval (w : World) (f : Found) : Except OpsError Approval :=
  let owner := if f.target.environment = "production" then 0 else w.euid
  match w.approvals with
  | none => .error ⟨"approval_missing", "trusted approval directory is missing"⟩
  | some directory => do
    refuse (directory.kind ≠ .directory) "approval_missing"
      "trusted approval directory is missing"
    refuse (directory.sharedWrite = true) "approval_untrusted"
      "approval directory is group/world writable"
    refuse (directory.uid ≠ owner) "approval_untrusted" "approval directory has the wrong owner"
    refuse (f.target.environment = "production" ∧ w.euid ≠ 0) "permission_denied"
      "production release executor must run as root"
    match w.approval f.planHash with
    | none => .error ⟨"file_missing", "required file is missing"⟩
    | some (info, approval) => do
      refuse (info.kind ≠ .file ∨ info.uid ≠ owner ∨ info.sharedAccess = true)
        "approval_untrusted" "approval file owner or mode is unsafe"
      refuse (¬(approval.schemaVersion = 1 ∧ approval.actionClass = "C" ∧
          approval.action = "ops.deploy_release.v1" ∧ approval.resourceId = f.target.resourceId ∧
          approval.targetId = f.target.id ∧ approval.planHash = f.planHash))
        "approval_mismatch" "approval field does not match plan"
      refuse (approval.approvedBy ∉ f.target.approvers) "approval_untrusted"
        "approver is not allowlisted for this target"
      refuse (w.now + 300 < approval.approvedAt ∨ approval.expiresAt ≤ w.now ∨
          86400 < approval.expiresAt - approval.approvedAt)
        "approval_expired" "approval is not within its bounded validity window"
      return approval

/-! ## The run -/

structure Mutation where
  /-- What `_extract_archive` unpacks, and into which release. -/
  members : List Member
  release : String
  /-- The links in the release, and the persistent directories they lead to. -/
  links : List (String × String)
  /-- The link that `_switch_current` makes lead to the release. -/
  currentLink : String
  /-- The units that `_control_services` stops and starts. -/
  units : List String
  /-- What an automatic rollback switches back to, if there is one: a release, or no link. -/
  rollback : Option (Option (List String))

def join (root path : String) : String :=
  root ++ "/" ++ path

def Found.release (f : Found) : String :=
  join f.target.releasesRoot f.manifest.releaseId

def Found.mutation (f : Found) : Mutation where
  members := f.members
  release := f.release
  links := f.target.persistentPaths.map fun p =>
    (join f.release p, join f.target.persistentRoot p)
  currentLink := f.target.currentLink
  units := f.target.serviceUnits
  rollback := if f.target.rollbackAutomatic then some f.current else none

/-- `apply_release`, to what it changes. The second world is the one under the lock. -/
def applyRelease (w locked : World) : Except OpsError Mutation := do
  let plan ← buildReleasePlan w
  let _ ← verifyApproval w plan
  let lockedPlan ← buildReleasePlan locked
  refuse (lockedPlan.planHash ≠ plan.planHash) "plan_changed"
    "release plan changed while acquiring the resource lock"
  let _ ← verifyApproval locked lockedPlan
  return lockedPlan.mutation

end OpsPlans
