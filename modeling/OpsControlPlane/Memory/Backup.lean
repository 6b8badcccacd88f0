import OpsControlPlane.Lib.CrashLogic
import Mathlib.Data.Finset.Card

/-!
# Backups of the memory

`createBackup` copies the catalogue, asks the collection for its number of points, takes a
snapshot and publishes both with a manifest. The service goes on writing: the points may change
before each operation. `restoreTest` restores the snapshot of a backup in an empty server and
counts its points.

A snapshot file is the set of the points that it holds; its size and its checksum are parameters.
-/

namespace OpsMemory

open Calls

variable {κ : Type} [DecidableEq κ]

/-! ## Points -/

inductive Change (κ : Type) where
  | upsert (ids : Finset κ)
  | delete (ids : Finset κ)

def Change.apply (points : Finset κ) : Change κ → Finset κ
  | .upsert ids => points ∪ ids
  | .delete ids => points \ ids

def applyAll (points : Finset κ) (changes : List (Change κ)) : Finset κ :=
  changes.foldl Change.apply points

/-! ## Files -/

structure BackupError where
  message : String
deriving DecidableEq

/-- The size and the checksum of a snapshot file. -/
structure FileFormat (κ : Type) where
  size : Finset κ → ℕ
  sha256 : Finset κ → String

/-- What `_backup_sqlite` says of the copy of the catalogue. -/
structure SqliteDetails where
  memories : ℕ
deriving DecidableEq

structure CollectionInfo where
  pointsCount : ℕ
  indexedVectorsCount : Option ℕ
  status : Option String
deriving DecidableEq

/-- What `create_snapshot` returns. -/
structure SnapshotDetails where
  name : String
  size : ℕ
  checksum : String
deriving DecidableEq

structure BackupManifest where
  backupId : String
  sqlite : SqliteDetails
  /-- `bytes` of the snapshot file. -/
  bytes : ℕ
  (sha256 serverChecksum : String)
  collection : CollectionInfo
deriving DecidableEq

structure Backup (κ : Type) where
  manifest : BackupManifest
  sqlite : SqliteDetails
  snapshot : Finset κ

/-- What `verify_backup` and `restore_test` return. -/
structure BackupReport where
  backupId : String
  (sqliteMemories qdrantPoints : ℕ)
deriving DecidableEq

def verifyBackup (fmt : FileFormat κ) (b : Backup κ) : Except BackupError BackupReport :=
  if b.manifest.bytes < 1 ∨ b.manifest.bytes ≠ fmt.size b.snapshot ∨
      b.manifest.sha256 ≠ fmt.sha256 b.snapshot then
    .error ⟨"backup component checksum or size does not match"⟩
  else if b.manifest.sqlite ≠ b.sqlite then
    .error ⟨"SQLite backup metadata does not match"⟩
  else if b.manifest.serverChecksum ≠ b.manifest.sha256 then
    .error ⟨"Qdrant backup metadata is invalid"⟩
  else
    .ok ⟨b.manifest.backupId, b.sqlite.memories, b.manifest.collection.pointsCount⟩

/-- `restore_test`, when the isolated server starts and takes the snapshot. -/
def restoreTest (fmt : FileFormat κ) (b : Backup κ) : Except BackupError BackupReport := do
  let verification ← verifyBackup fmt b
  if b.sqlite.memories ≠ verification.sqliteMemories then
    .error ⟨"restored SQLite catalogue count does not match"⟩
  else
    let restoredCount := b.snapshot.card
    if restoredCount ≠ b.manifest.collection.pointsCount then
      .error ⟨"restored Qdrant point count does not match"⟩
    else .ok ⟨b.manifest.backupId, b.sqlite.memories, restoredCount⟩

/-! ## Operations -/

inductive BackupEvent (κ : Type) where
  | changed (c : Change κ)
  | counted (points : Finset κ)
  | snapped (points : Finset κ)

structure BackupWorld (κ : Type) where
  points : Finset κ
  snapshots : List (String × Finset κ)
  backups : List (Backup κ)
  log : List (BackupEvent κ)

/-- What a backup asks of the server and of the file system. -/
inductive BackupOp (κ : Type) where
  | prepare (backupId : String)
  | backupSqlite
  | collectionInfo
  | createSnapshot
  | download (name : String) (maximum : ℕ)
  | deleteSnapshot (name : String)
  /-- The manifest is written and the directory gets its name. -/
  | publish (b : Backup κ)
  /-- The directory is moved aside. -/
  | quarantine (backupId : String)
  | prune (backupId : String)

abbrev BackupOp.Reply : BackupOp κ → Type
  | .backupSqlite => SqliteDetails
  | .collectionInfo => CollectionInfo
  | .createSnapshot => SnapshotDetails
  | .download _ _ => Finset κ
  | _ => Unit

abbrev backupInterface (κ : Type) : Interface :=
  ⟨BackupOp κ, fun o => Except BackupError o.Reply⟩

abbrev BackupProg (κ : Type) (α : Type) : Type :=
  Prog (backupInterface κ) BackupError α

/-- Ask an operation, and fail as it fails. -/
def backupOp (o : BackupOp κ) : BackupProg κ o.Reply := do
  let r : Except BackupError o.Reply ← Prog.perform (I := backupInterface κ) o
  Prog.ofExcept r

/-- What the environment chooses at an operation: what the service has done to the points
before it, and what the operation answers. -/
structure BackupChoice (κ : Type) where
  changes : List (Change κ)
  fault : Option BackupError
  sqlite : SqliteDetails
  indexedVectorsCount : Option ℕ
  status : Option String
  snapshotName : String

/-- The answer of an operation and the world after it, when it does not fail. -/
def BackupOp.run (fmt : FileFormat κ) : (o : BackupOp κ) → BackupChoice κ → BackupWorld κ →
    Except BackupError o.Reply × BackupWorld κ
  | .prepare backupId, _, w =>
    if w.backups.any fun b => b.manifest.backupId = backupId then
      (.error ⟨"backup identifier already exists"⟩, w)
    else (.ok (), w)
  | .backupSqlite, x, w => (.ok x.sqlite, w)
  | .collectionInfo, x, w =>
    (.ok ⟨w.points.card, x.indexedVectorsCount, x.status⟩,
      { w with log := w.log ++ [.counted w.points] })
  | .createSnapshot, x, w =>
    (.ok ⟨x.snapshotName, fmt.size w.points, fmt.sha256 w.points⟩,
      { w with
        snapshots := (x.snapshotName, w.points) :: w.snapshots
        log := w.log ++ [.snapped w.points] })
  | .download name maximum, _, w =>
    match w.snapshots.find? fun s => s.1 = name with
    | none => (.error ⟨"Qdrant request failed"⟩, w)
    | some s =>
      if fmt.size s.2 < 1 then (.error ⟨"Qdrant snapshot download was empty"⟩, w)
      else if maximum < fmt.size s.2 then
        (.error ⟨"Qdrant snapshot exceeds its allowed size"⟩, w)
      else (.ok s.2, w)
  | .deleteSnapshot name, _, w =>
    (.ok (), { w with snapshots := w.snapshots.filter fun s => s.1 ≠ name })
  | .publish b, _, w => (.ok (), { w with backups := w.backups ++ [b] })
  | .quarantine backupId, _, w =>
    (.ok (), { w with backups := w.backups.filter fun b => b.manifest.backupId ≠ backupId })
  | .prune _, _, w => (.ok (), w)

def BackupWorld.change (w : BackupWorld κ) (changes : List (Change κ)) : BackupWorld κ :=
  { w with points := applyAll w.points changes, log := w.log ++ changes.map .changed }

def performBackup (fmt : FileFormat κ) (o : BackupOp κ) (x : BackupChoice κ)
    (w : BackupWorld κ) : Except BackupError o.Reply × BackupWorld κ :=
  match x.fault with
  | some e => (.error e, w.change x.changes)
  | none => o.run fmt x (w.change x.changes)

/-! ## The backup -/

def fetchSnapshot (fmt : FileFormat κ) (maximum : ℕ) (details : SnapshotDetails) :
    BackupProg κ (Finset κ) := do
  let file : Finset κ ← backupOp (.download details.name maximum)
  if fmt.sha256 file ≠ details.checksum then
    .fail ⟨"downloaded Qdrant snapshot checksum does not match"⟩
  else return file

/-- The snapshot is deleted from the server, and once more if that fails. -/
def dropSnapshot (name : String) : BackupProg κ Unit := do
  match ← Prog.attempt (backupOp (κ := κ) (.deleteSnapshot name)) with
  | .ok _ => return ()
  | .error e => do
    let _ ← Prog.attempt (backupOp (κ := κ) (.deleteSnapshot name))
    .fail e

def createBackup (fmt : FileFormat κ) (backupId : String) (maximum : ℕ) :
    BackupProg κ BackupReport := do
  let _ : Unit ← backupOp (.prepare backupId)
  let sqlite : SqliteDetails ← backupOp .backupSqlite
  let collection : CollectionInfo ← backupOp .collectionInfo
  let details : SnapshotDetails ← backupOp .createSnapshot
  let fetched ← Prog.attempt (fetchSnapshot fmt maximum details)
  dropSnapshot details.name
  let file ← Prog.ofExcept fetched
  if fmt.size file ≠ details.size then
    .fail ⟨"downloaded Qdrant snapshot size does not match"⟩
  else do
    let manifest : BackupManifest :=
      ⟨backupId, sqlite, fmt.size file, fmt.sha256 file, details.checksum, collection⟩
    let backup : Backup κ := ⟨manifest, sqlite, file⟩
    let _ : Unit ← backupOp (.publish backup)
    match verifyBackup fmt backup with
    | .error e => do
      let _ : Unit ← backupOp (.quarantine backupId)
      .fail e
    | .ok report => do
      let _ : Unit ← backupOp (.prune backupId)
      return report

end OpsMemory
