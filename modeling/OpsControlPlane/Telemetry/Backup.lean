import OpsControlPlane.Lib.CrashLogic
import Mathlib.Algebra.Order.Ring.Rat

/-!
# The daily telemetry backup

`main` copies the databases of the telemetry, encrypts each copy, restores it, and puts the archive
in its folder with a manifest beside it. A closed daily partition has one archive, by a name that
does not depend on the run; the other databases get one whose name has the second of the run.

A run may stop between any two operations, and an operation may raise. A manifest is written in
place, so that it is torn from the moment it is opened until all of it is written.
-/

namespace OpsTelemetryBackup

open Calls

abbrev Bytes : Type :=
  List UInt8

/-- What the backup asks of the standard library and of SQLite. -/
structure Tools where
  sha256 : Bytes → String
  gzip : Bytes → Bytes
  /-- What a compressed file expands to, none if it is not one. -/
  gunzip : Bytes → Option Bytes
  /-- `age -d`, none if the archive is not one of the recipient. -/
  decrypt : Bytes → Option Bytes
  /-- `PRAGMA integrity_check`. -/
  integrity : Bytes → Bool
  tables : Bytes → List String
  rows : Bytes → String → ℕ

inductive BackupError where
  | value (message : String)
  /-- An error of a command, of the file system or of a library. -/
  | other
deriving DecidableEq

/-! ## Files -/

/-- A database that is copied. A partition goes by its day. -/
inductive Source where
  | history
  | logs
  | partition (day : String)
deriving DecidableEq

def Source.stem : Source → String
  | .history => "history"
  | .logs => "logs"
  | .partition day => day

def Source.path : Source → String
  | .history => "/var/lib/ops-telemetry/history.sqlite3"
  | .logs => "/var/lib/ops-telemetry/logs.sqlite3"
  | .partition day => "/var/lib/ops-telemetry/full/" ++ day ++ ".sqlite3"

structure Report where
  (file sha256 : String)
  (bytes rows : ℕ)
  source : String
  createdAt : ℚ
  (verified sealedPartition : Bool)
  encoding : String
  uncompressedBytes : ℕ
  uncompressedSha256 : String
deriving DecidableEq

structure Summary where
  verified : Bool
  checkedAt : ℚ
  archives : ℕ
  newSnapshots : List Report
  (automaticDeletion offsiteVerified : Bool)
deriving DecidableEq

/-- The databases of the telemetry. The files of a folder have distinct names. -/
structure Databases where
  (history logs : Option Bytes)
  full : List (String × Bytes)
  distinct : (full.map Prod.fst).Nodup

def Databases.content (db : Databases) : Source → Option Bytes
  | .history => db.history
  | .logs => db.logs
  | .partition day => db.full.lookup day

/-- The databases and the folder of the backups. A torn file is none. -/
structure World where
  db : Databases
  archives : List (String × Bytes)
  manifests : List (String × Option Report)
  (latest statusNext : Option (Option Summary))
  status : Option Summary
  /-- The archive that was put in its place last is one of a closed partition, and not all of its
  manifest was written. -/
  undescribed : Bool
  /-- The archives that runs ever put in their place. -/
  placed : List (String × Bytes)

def put {α : Type} (name : String) (a : α) (l : List (String × α)) : List (String × α) :=
  (name, a) :: l.filter fun kv => kv.1 ≠ name

def isDay (stem : String) : Bool :=
  match stem.toList with
  | [_, _, _, _, '-', _, _, '-', _, _] => true
  | _ => false

/-- `sorted((STATE/'full').glob('????-??-??.sqlite3'))`. -/
def Databases.days (db : Databases) : List String :=
  ((db.full.map Prod.fst).filter isDay).mergeSort fun a b => a ≤ b

/-! ## Operations -/

inductive BackupOp where
  | makeFolder
  /-- `(STATE/'logs.sqlite3').exists()`. -/
  | logsExists
  | days
  | time
  | makeWork
  | removeWork
  | snapshot (source : Source)
  /-- The compressed copy is written. -/
  | compress (content : Bytes)
  /-- `age -R`. -/
  | encrypt (content : Bytes)
  /-- `age -d`. -/
  | decrypt (content : Bytes)
  | archiveExists (file : String)
  | readArchive (file : String)
  | place (isSealed : Bool) (file : String) (content : Bytes)
  | manifestExists (file : String)
  | readManifest (file : String)
  | openManifest (file : String)
  | writeManifest (file : String) (report : Report)
  | countArchives
  | openLatest
  | writeLatest (report : Summary)
  | openStatus
  | writeStatus (report : Summary)
  | replaceStatus

abbrev BackupOp.Reply : BackupOp → Type
  | .logsExists | .archiveExists _ | .manifestExists _ => Bool
  | .days => List String
  | .time => ℚ
  | .snapshot _ | .compress _ | .encrypt _ | .decrypt _ | .readArchive _ => Bytes
  | .readManifest _ => Report
  | .countArchives => ℕ
  | _ => Unit

/-- The operations of the runs. An operation may raise. -/
abbrev backupInterface : Interface :=
  ⟨BackupOp, fun o => Except BackupError o.Reply⟩

abbrev BackupProg (α : Type) : Type :=
  Prog backupInterface BackupError α

/-- Ask an operation, and raise as it raises. -/
def call (o : BackupOp) : BackupProg o.Reply := do
  let r : Except BackupError o.Reply ← Prog.perform (I := backupInterface) o
  Prog.ofExcept r

/-- What the environment chooses at an operation. -/
structure Choice where
  raises : Bool
  time : ℚ
  /-- What `age -R` writes. -/
  encrypted : Bytes → Bytes

/-- A value, or an error of the file system. -/
def found {α : Type} : Option α → Except BackupError α
  | some a => .ok a
  | none => .error .other

/-- The answer of an operation that the environment lets succeed, and the files after it. -/
def BackupOp.run (T : Tools) : (o : BackupOp) → Choice → World → Except BackupError o.Reply × World
  | .makeFolder, _, w => (.ok (), w)
  | .logsExists, _, w => (.ok w.db.logs.isSome, w)
  | .days, _, w => (.ok w.db.days, w)
  | .time, x, w => (.ok x.time, w)
  | .makeWork, _, w => (.ok (), w)
  | .removeWork, _, w => (.ok (), w)
  | .snapshot source, _, w => (found (w.db.content source), w)
  | .compress content, _, w => (.ok (T.gzip content), w)
  | .encrypt content, x, w => (.ok (x.encrypted content), w)
  | .decrypt content, _, w => (found (T.decrypt content), w)
  | .archiveExists file, _, w => (.ok (w.archives.lookup file).isSome, w)
  | .readArchive file, _, w => (found (w.archives.lookup file), w)
  | .place isSealed file content, _, w =>
    (.ok (), { w with
      archives := put file content w.archives
      undescribed := isSealed
      placed := (file, content) :: w.placed })
  | .manifestExists file, _, w => (.ok (w.manifests.lookup file).isSome, w)
  | .readManifest file, _, w => (found ((w.manifests.lookup file).bind id), w)
  | .openManifest file, _, w => (.ok (), { w with manifests := put file none w.manifests })
  | .writeManifest file report, _, w =>
    (.ok (), { w with manifests := put file (some report) w.manifests, undescribed := false })
  | .countArchives, _, w => (.ok w.archives.length, w)
  | .openLatest, _, w => (.ok (), { w with latest := some none })
  | .writeLatest report, _, w => (.ok (), { w with latest := some (some report) })
  | .openStatus, _, w => (.ok (), { w with statusNext := some none })
  | .writeStatus report, _, w => (.ok (), { w with statusNext := some (some report) })
  | .replaceStatus, _, w => (.ok (), { w with status := w.statusNext.bind id, statusNext := none })

/-- The answer of an operation and the files after it. -/
def act (T : Tools) (o : BackupOp) (x : Choice) (w : World) : Except BackupError o.Reply × World :=
  if x.raises then (.error .other, w) else o.run T x w

/-! ## The run -/

def bound : ℕ :=
  4 * 1024 ^ 3

structure Clock where
  /-- `%Y-%m-%d`. -/
  today : String
  /-- `%Y%m%dT%H%M%SZ`. -/
  stamp : String
  stamp_length : stamp.toList.length = 16
  stamp_last : stamp.toList.getLast? = some 'Z'

/-- `source.parent.name == 'full' and source.stem < today`. -/
def Source.isSealed (today : String) : Source → Bool
  | .partition day => day < today
  | _ => false

/-- The name of the archive without its suffix. -/
def Source.name (clock : Clock) (s : Source) : String :=
  s.stem ++ if s.isSealed clock.today then "-sealed" else "-" ++ clock.stamp

def archiveFile (name : String) : String :=
  name ++ ".sqlite3.age"

def manifestFile (name : String) : String :=
  name ++ ".json"

variable (T : Tools)

/-- The chunks of the compressed file, with a bound on their number. -/
def expandChunks (expected : ℕ) : ℕ → Bytes → Bytes → Except BackupError Bytes
  | 0, _, out => .ok out
  | n + 1, incoming, out =>
    let chunk := incoming.take (min (1024 * 1024) (expected - out.length + 1))
    if chunk = [] then .ok out
    else if expected < out.length + chunk.length then
      .error (.value "Expanded snapshot exceeds manifest")
    else expandChunks expected n (incoming.drop chunk.length) (out ++ chunk)

def expand (source : Bytes) (expected : ℕ) : Except BackupError Bytes :=
  if ¬(0 < expected ∧ expected ≤ bound) then .error (.value "Invalid snapshot size")
  else do
    let incoming ← found (T.gunzip source)
    let out ← expandChunks expected (incoming.length + 1) incoming []
    if out.length ≠ expected then .error (.value "Incomplete snapshot") else return out

def check (p : Bytes) : Except BackupError ℕ :=
  if T.integrity p then do
    let table ← found (["snapshots", "samples", "entries"].find? fun t => t ∈ T.tables p)
    return T.rows p table
  else .error (.value "Invalid SQLite backup")

/-- A database is copied, encrypted and restored: the copy, its rows and the archive. -/
def copySource (source : Source) : BackupProg (Bytes × ℕ × Bytes) := do
  let snapshot : Bytes ← call (.snapshot source)
  let count ← Prog.ofExcept (check T snapshot)
  if ¬(0 < snapshot.length ∧ snapshot.length ≤ bound) then
    .fail (.value "Snapshot exceeds restore bound")
  else do
    let compressed : Bytes ← call (.compress snapshot)
    let output : Bytes ← call (.encrypt compressed)
    let restoredCompressed : Bytes ← call (.decrypt output)
    let restored ← Prog.ofExcept (expand T restoredCompressed snapshot.length)
    if T.sha256 snapshot ≠ T.sha256 restored then .fail (.value "Restore differs")
    else do
      let restoredCount ← Prog.ofExcept (check T restored)
      if restoredCount ≠ count then .fail (.value "Restore differs")
      else return (snapshot, count, output)

/-- The archive is put in its place, and described. -/
def publish (clock : Clock) (source : Source) (snapshot : Bytes) (count : ℕ) (output : Bytes) :
    BackupProg Report := do
  let name := source.name clock
  let already : Bool ← call (.archiveExists (archiveFile name))
  if already then .fail (.value "Existing backup preserved")
  else do
    call (.place (source.isSealed clock.today) (archiveFile name) output)
    let archive : Bytes ← call (.readArchive (archiveFile name))
    let createdAt : ℚ ← call .time
    let report : Report := ⟨archiveFile name, T.sha256 archive, archive.length, count, source.path,
      createdAt, true, source.isSealed clock.today, "gzip", snapshot.length, T.sha256 snapshot⟩
    call (.openManifest (manifestFile name))
    call (.writeManifest (manifestFile name) report)
    return report

def saveSource (clock : Clock) (source : Source) : BackupProg Report := do
  let copied ← copySource T source
  publish T clock source copied.1 copied.2.1 copied.2.2

def backupSource (clock : Clock) (source : Source) : BackupProg (Option Report) := do
  let skipped : Bool ←
    if source.isSealed clock.today then call (.manifestExists (manifestFile (source.name clock)))
    else pure false
  if skipped then do
    let prior : Report ← call (.readManifest (manifestFile (source.name clock)))
    let archive : Bytes ← call (.readArchive prior.file)
    if T.sha256 archive ≠ prior.sha256 then .fail (.value "Existing encrypted archive differs")
    else return none
  else do
    call .makeWork
    let r ← Prog.attempt (saveSource T clock source)
    call .removeWork
    let report ← Prog.ofExcept r
    return some report

def backupSources (clock : Clock) : List Source → BackupProg (List Report)
  | [] => return []
  | source :: sources => do
    let report ← backupSource T clock source
    let reports ← backupSources clock sources
    return report.toList ++ reports

def sources (logs : Bool) (days : List String) : List Source :=
  (.history :: if logs then [.logs] else []) ++ days.map .partition

/-- What comes after the sources. -/
def report (results : List Report) : BackupProg Unit := do
  let checkedAt : ℚ ← call .time
  let archives : ℕ ← call .countArchives
  let summary : Summary := ⟨true, checkedAt, archives, results, false, false⟩
  call .openLatest
  call (.writeLatest summary)
  -- `new_snapshots` is not in the status.
  call .openStatus
  call (.writeStatus { summary with newSnapshots := [] })
  call .replaceStatus

def main (clock : Clock) : BackupProg Unit := do
  call .makeFolder
  let logs : Bool ← call .logsExists
  let days : List String ← call .days
  let results ← backupSources T clock (sources logs days)
  report results

/-! ## Runs -/

/-- A run is not stopped between the archive of a closed partition and the end of its manifest. -/
def Whole (w : World) : Prop :=
  w.undescribed = false

variable (K : World → Prop)

/-- The folder after a sequence of runs that stop where the condition holds, with the stamps of the
runs. Between them the databases change. -/
inductive Runs : List String → World → Prop where
  | start (db : Databases) : Runs [] ⟨db, [], [], none, none, none, false, []⟩
  | change {stamps : List String} {w : World} (db : Databases) (h : Runs stamps w) :
      Runs stamps { w with db := db }
  | run {stamps : List String} {w w' : World} (clock : Clock) (h : Runs stamps w)
      (hnew : clock.stamp ∉ stamps) (hr : (main T clock).Reaches (act T) w w') (hK : K w') :
      Runs (clock.stamp :: stamps) w'

/-! ## What is claimed -/

/-- The commands and the file system work. -/
def Works (x : Choice) : Prop :=
  x.raises = false ∧ ∀ c, T.decrypt (x.encrypted c) = some c

/-- The operations when the commands and the file system work. -/
def actWell (o : BackupOp) (x : {x : Choice // Works T x}) (w : World) :
    Except BackupError o.Reply × World :=
  act T o x.val w

/-- A database that can be copied and restored. -/
def Sound (content : Bytes) : Prop :=
  0 < content.length ∧ content.length ≤ bound ∧ ∃ count, check T content = .ok count

/-- The databases that are not saved yet are sound. -/
def Healthy (clock : Clock) (w : World) : Prop :=
  ∀ source ∈ sources w.db.logs.isSome w.db.days,
    (source.isSealed clock.today = true ∧
      (w.archives.lookup (archiveFile (source.name clock))).isSome = true) ∨
    ∃ content, w.db.content source = some content ∧ Sound T content

/-- The archive of the name is in the folder, with a manifest that states its digest. -/
def Saved (w : World) (name : String) : Prop :=
  ∃ archive manifest, w.archives.lookup (archiveFile name) = some archive ∧
    w.manifests.lookup (manifestFile name) = some (some manifest) ∧
    manifest.file = archiveFile name ∧ manifest.sha256 = T.sha256 archive

structure Recovers (stamps : List String) (w : World) : Prop where
  /-- Wherever a run stops, the archives that were in place are as they were. -/
  kept : ∀ (clock : Clock) w', (main T clock).Reaches (act T) w w' → ∀ file archive,
    w.archives.lookup file = some archive → w'.archives.lookup file = some archive
  /-- So are those that it put in their place itself before it stopped, and all others. -/
  placed : ∀ (clock : Clock) w', (main T clock).Reaches (act T) w w' → ∀ file archive,
    (file, archive) ∈ w'.placed → w'.archives.lookup file = some archive
  /-- A later run that nothing disturbs succeeds, and each closed partition is saved. -/
  completes : ∀ (clock : Clock) r w', clock.stamp ∉ stamps → Healthy T clock w →
    (main T clock).Finishes (actWell T) w r w' → r = .ok () ∧
    ∀ day ∈ w.db.days, day < clock.today → Saved T w' (day ++ "-sealed")

end OpsTelemetryBackup
