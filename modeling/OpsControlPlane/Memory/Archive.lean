import OpsControlPlane.Lib.JsonLine
import OpsControlPlane.Vault.Backup

/-!
# The directory of the memory backups

`createBackup` fills a pending directory with the copy of the catalogue, the snapshot of the
collection and a manifest, gives it its published name, reads it again as `verifyBackup` does, and
prunes the oldest backups: each is renamed, and then its tree is removed.

A directory is its name with the names and the bytes of its files.
-/

namespace OpsArchive

open Calls Text JsonText
open OpsVault (strftime matchesShape isDigit)

/-- What `_sqlite_integrity` says of a catalogue without errors. -/
structure SqliteDetails where
  schemaVersion : String
  (memories pages : ℕ)
deriving DecidableEq

/-- The libraries that the script rests on. -/
class Host where
  Flt : Type
  [text : FloatText Flt]
  /-- `hashlib.sha256(...).hexdigest()`. -/
  sha256 : ByteArray → String
  /-- `_sqlite_integrity` of a file with these bytes. -/
  sqliteIntegrity : ByteArray → Option SqliteDetails
  /-- `datetime.fromisoformat` reads the text, with a time zone. -/
  fromisoformat : String → Bool

export Host (Flt)

variable [Host]

instance : FloatText Flt := Host.text

/-- A JSON document of the script. -/
abbrev Doc : Type :=
  Json Flt

/-! ## Texts -/

/-- `SHA256_RE.fullmatch`. -/
def isSha256 (s : String) : Bool :=
  (toChars s).length = 64 && (toChars s).all fun c => isDigit c || ('a' ≤ c && c ≤ 'f')

/-- `[A-Za-z0-9_-]`. -/
def isWord (c : Char) : Bool :=
  isDigit c || ('a' ≤ c && c ≤ 'z') || ('A' ≤ c && c ≤ 'Z') || c = '_' || c = '-'

/-- `COLLECTION_RE.fullmatch`. -/
def isCollection (s : String) : Bool :=
  1 ≤ (toChars s).length && (toChars s).length ≤ 128 && (toChars s).all isWord

/-- `SNAPSHOT_RE.fullmatch`. -/
def isSnapshot (s : String) : Bool :=
  let stem := (toChars s).take ((toChars s).length - 9)
  (toChars s).drop stem.length = toChars ".snapshot" && 1 ≤ stem.length && stem.length ≤ 255 &&
    stem.all fun c => isWord c || c = '.'

/-- `BACKUP_RE`, of the names that the script makes: their digits are ASCII. -/
def backupShape : List (Char → Bool) :=
  (toChars "ops-memory-").map (fun c => (· == c)) ++ List.replicate 8 isDigit ++ [(· == 'T')] ++
    List.replicate 6 isDigit ++ [(· == '.')] ++ List.replicate 6 isDigit ++ [(· == 'Z')]

/-- `BACKUP_RE.fullmatch`. -/
def isBackupName (name : String) : Bool :=
  matchesShape backupShape (toChars name)

def backupId (t : Calendar.DateTime) : String :=
  ofChars (toChars "ops-memory-" ++ strftime t)

/-- `isoformat()`, without its offset: no fraction when there are no microseconds. -/
def isoTime (t : Calendar.DateTime) : List Char :=
  let l := toChars (Calendar.isoformat t)
  if t.fields.getLast? = some 0 then l.take 19 else l.take 26

def pendingName (backupId token : String) : String :=
  ".pending-" ++ backupId ++ "-" ++ token

def quarantineName (backupId token : String) : String :=
  ".invalid-" ++ backupId ++ "-" ++ token

def tombstoneName (backupId token : String) : String :=
  ".expired-" ++ backupId ++ "-" ++ token

/-! ## Answers of the collection -/

inductive ArchiveError where
  | backup (message : String)
  | system
  /-- `ValueError`, that the script does not expect. -/
  | value
  /-- An error of the last `finally`, which skips the rest of it. -/
  | last
deriving DecidableEq

/-- Fail unless the condition holds. -/
def require (b : Bool) (message : String) : Except ArchiveError Unit :=
  if b then .ok () else .error (.backup message)

def demand {α : Type} (o : Option α) (message : String) : Except ArchiveError α :=
  match o with
  | some a => .ok a
  | none => .error (.backup message)

/-- An instance of `int`: a Boolean is one. -/
def asInt : Doc → Option ℤ
  | .int n => some n
  | .bool b => some (if b then 1 else 0)
  | _ => none

def asStr : Doc → Option String
  | .str s => some s
  | _ => none

/-- An instance of `dict`. -/
def asObj : Doc → Option (List (String × Doc))
  | .obj kvs => some kvs
  | _ => none

/-- `json.loads`: an integer that is too long is refused. -/
def readJson (text message : String) : Except ArchiveError Doc := do
  let document ← demand (loads text) message
  if short document then .ok document else .error .value

def jsonRequest (answer : String) : Except ArchiveError (List (String × Doc)) := do
  require (answer.utf8ByteSize ≤ 8000000) "Qdrant JSON response is oversized"
  let document ←
    if answer = "" then .ok (.obj []) else readJson answer "Qdrant returned invalid JSON"
  let kvs ← demand (asObj document) "Qdrant returned an unsuccessful response"
  require ((kvs.lookup "status").bind asStr = some "ok" && (kvs.lookup "result").isSome)
    "Qdrant returned an unsuccessful response"
  return kvs

/-- An integer of the answer that is not negative. -/
def countOf (v : Doc) : Option Doc :=
  match asInt v with
  | some n => if 0 ≤ n then some v else none
  | none => none

structure CollectionInfo where
  pointsCount : Doc
  indexedVectorsCount : Option Doc
  status : Option String

def collectionInfo (answer : String) : Except ArchiveError CollectionInfo := do
  let document ← jsonRequest answer
  let result ← demand ((document.lookup "result").bind asObj)
    "Qdrant collection response is invalid"
  let indexed := (result.lookup "indexed_vectors_count").bind countOf
  let status := ((result.lookup "status").bind asStr).filter fun s => s.length ≤ 64
  let points ← demand ((result.lookup "points_count").bind countOf)
    "Qdrant collection point count is missing"
  return ⟨points, indexed, status⟩

/-- What `create_snapshot` returns. -/
structure SnapshotDetails where
  name : String
  size : ℤ
  (checksum creationTime : String)

/-- `lower`, of the letters that matter for a digest. -/
def lower (s : String) : String :=
  ofChars ((toChars s).map Char.toLower)

def createSnapshot (answer : String) : Except ArchiveError SnapshotDetails := do
  let document ← jsonRequest answer
  let result ← demand ((document.lookup "result").bind asObj)
    "Qdrant snapshot response is invalid"
  let name ← demand (((result.lookup "name").bind asStr).filter isSnapshot)
    "Qdrant returned an unsafe snapshot name"
  let size ← demand (((result.lookup "size").bind asInt).filter fun n => 1 ≤ n)
    "Qdrant returned an invalid snapshot size"
  let checksum ← demand (((result.lookup "checksum").bind asStr).filter fun s => isSha256 (lower s))
    "Qdrant returned an invalid snapshot checksum"
  let creationTime ← demand (((result.lookup "creation_time").bind asStr).filter fun s =>
    1 ≤ s.length && s.length ≤ 128) "Qdrant returned an invalid snapshot timestamp"
  return ⟨name, size, lower checksum, creationTime⟩

def deleteSnapshot (answer : String) : Except ArchiveError Unit := do
  let document ← jsonRequest answer
  require ((document.lookup "result").elim false fun v => match v with
    | .bool b => b
    | _ => false) "Qdrant did not confirm snapshot cleanup"

/-! ## The manifest -/

def consistency : List (String × Doc) :=
  [("sqlite", .str "online-backup-api"), ("qdrant", .str "collection-snapshot-api"),
    ("cross_store", .str "sqlite-catalogue-authoritative-qdrant-index-rebuildable")]

def optional (key : String) (v : Option Doc) : List (String × Doc) :=
  match v with
  | some v => [(key, v)]
  | none => []

/-- The manifest's part on the catalogue. -/
def sqliteManifest (bytes : ByteArray) (details : SqliteDetails) : List (String × Doc) :=
  [("file", .str "memory.sqlite3"), ("bytes", .int bytes.size),
    ("sha256", .str (Host.sha256 bytes)), ("integrity", .str "ok"),
    ("schema_version", .str details.schemaVersion), ("memories", .int details.memories),
    ("pages", .int details.pages)]

def qdrantManifest (size : ℕ) (sha256 : String) (snapshot : SnapshotDetails) (collection : String)
    (info : CollectionInfo) : List (String × Doc) :=
  [("file", .str "qdrant.snapshot"), ("bytes", .int size), ("sha256", .str sha256),
    ("server_checksum", .str snapshot.checksum),
    ("snapshot_creation_time", .str snapshot.creationTime), ("collection", .str collection),
    ("points_count", info.pointsCount)] ++
  optional "indexed_vectors_count" info.indexedVectorsCount ++
  optional "status" (info.status.map .str)

def manifest (backupId createdAt : String) (sqlite qdrant : List (String × Doc)) :
    List (String × Doc) :=
  [("format", .str "ops-memory-backup-v1"), ("backup_id", .str backupId),
    ("created_at", .str createdAt), ("consistency", .obj consistency), ("sqlite", .obj sqlite),
    ("qdrant", .obj qdrant)]

/-! ## Verification -/

def expectedFiles : List String :=
  ["manifest.json", "memory.sqlite3", "qdrant.snapshot"]

def sameNames (names expected : List String) : Bool :=
  names.toFinset = expected.toFinset

def loadManifest (bytes : ByteArray) : Except ArchiveError (List (String × Doc)) := do
  require (bytes.size ≤ 1048576) "required file exceeds its size limit"
  let text ← demand (String.fromUTF8? bytes) "backup manifest is invalid"
  let document ← readJson text "backup manifest is invalid"
  demand (asObj document) "backup manifest is invalid"

def holdsText (kvs : List (String × Doc)) (key text : String) : Bool :=
  (kvs.lookup key).bind asStr = some text

/-- The field holds the integer. A float is equal to none: the script writes none there. -/
def holdsInt (kvs : List (String × Doc)) (key : String) (n : ℤ) : Bool :=
  (kvs.lookup key).bind asInt = some n

def componentOk (kvs : List (String × Doc)) (bytes : ByteArray) : Bool :=
  1 ≤ bytes.size && holdsInt kvs "bytes" bytes.size &&
    ((kvs.lookup "sha256").bind asStr).any isSha256 && holdsText kvs "sha256" (Host.sha256 bytes)

/-- The fields of the part on the catalogue. -/
def expectedSqlite : List String :=
  ["file", "bytes", "sha256", "integrity", "schema_version", "memories", "pages"]

/-- The fields of the part on the collection. -/
def expectedQdrant (kvs : List (String × Doc)) : List String :=
  ["file", "bytes", "sha256", "server_checksum", "snapshot_creation_time", "collection",
    "points_count"] ++
  (if "indexed_vectors_count" ∈ keys kvs then ["indexed_vectors_count"] else []) ++
  (if "status" ∈ keys kvs then ["status"] else [])

/-- `created_at` is a time in UTC. -/
def createdAtOk (kvs : List (String × Doc)) : Bool :=
  match (kvs.lookup "created_at").bind asStr with
  | some s =>
    (toChars s).getLast? = some 'Z' &&
      Host.fromisoformat (ofChars ((toChars s).dropLast ++ toChars "+00:00"))
  | none => false

def consistencyOk (kvs : List (String × Doc)) : Bool :=
  match (kvs.lookup "consistency").bind asObj with
  | some declared => sameNames (keys declared) (keys consistency) &&
      holdsText declared "sqlite" "online-backup-api" &&
      holdsText declared "qdrant" "collection-snapshot-api" &&
      holdsText declared "cross_store"
        "sqlite-catalogue-authoritative-qdrant-index-rebuildable"
  | none => false

/-- `str`, of a value whose text may be the name of a collection. -/
def strOf : Doc → String
  | .str s => s
  | .int n => ofChars (dumpsInt n)
  | .bool true => "True"
  | .bool false => "False"
  | .null => "None"
  | _ => ""

/-- The last check of the part on the collection. -/
def qdrantOk (kvs : List (String × Doc)) : Bool :=
  ((kvs.lookup "server_checksum").bind asStr).any isSha256 &&
    (kvs.lookup "server_checksum").bind asStr = (kvs.lookup "sha256").bind asStr &&
    ((kvs.lookup "snapshot_creation_time").bind asStr).isSome &&
    ((kvs.lookup "collection").map strOf).any isCollection &&
    ((kvs.lookup "points_count").bind countOf).isSome

def sqliteOk (kvs : List (String × Doc)) (details : SqliteDetails) : Bool :=
  holdsText kvs "integrity" "ok" && holdsText kvs "schema_version" details.schemaVersion &&
    holdsInt kvs "memories" details.memories && holdsInt kvs "pages" details.pages

/-- What `verify_backup` and `create_backup` say of a backup. -/
structure VerifyReport where
  backupId : String
  sqliteMemories : ℕ

def verifyBackup (name : String) (files : List (String × ByteArray)) :
    Except ArchiveError VerifyReport := do
  require (isBackupName name) "backup path is invalid"
  require (sameNames (keys files) expectedFiles) "backup contains missing or unexpected files"
  let manifestBytes ← demand (files.lookup "manifest.json") "required file is unavailable"
  let document ← loadManifest manifestBytes
  require (sameNames (keys document)
    ["format", "backup_id", "created_at", "consistency", "sqlite", "qdrant"])
    "backup manifest has unexpected fields"
  require (holdsText document "format" "ops-memory-backup-v1" &&
    holdsText document "backup_id" name) "backup manifest identity does not match"
  require (createdAtOk document) "backup timestamp is invalid"
  require (consistencyOk document) "backup consistency declaration is invalid"
  let sqlite ← demand ((document.lookup "sqlite").bind asObj) "sqlite manifest must be a table"
  let qdrant ← demand ((document.lookup "qdrant").bind asObj) "qdrant manifest must be a table"
  require (sameNames (keys sqlite) expectedSqlite &&
    sameNames (keys qdrant) (expectedQdrant qdrant))
    "backup component manifest has unexpected fields"
  require (holdsText sqlite "file" "memory.sqlite3") "SQLite backup filename is invalid"
  require (holdsText qdrant "file" "qdrant.snapshot") "Qdrant backup filename is invalid"
  let sqliteBytes ← demand (files.lookup "memory.sqlite3") "required backup file is unavailable"
  let qdrantBytes ← demand (files.lookup "qdrant.snapshot") "required backup file is unavailable"
  require (componentOk sqlite sqliteBytes && componentOk qdrant qdrantBytes)
    "backup component checksum or size does not match"
  let details ← demand (Host.sqliteIntegrity sqliteBytes) "SQLite integrity check failed"
  require (sqliteOk sqlite details) "SQLite backup metadata does not match"
  require (qdrantOk qdrant) "Qdrant backup metadata is invalid"
  return ⟨name, details.memories⟩

/-! ## Operations -/

/-- The files of a directory, with their bytes. -/
abbrev Folder : Type :=
  List (String × ByteArray)

structure Archive where
  entries : List (String × Folder)

def Archive.names (v : Archive) : List String :=
  keys v.entries

def Archive.folder (v : Archive) (name : String) : Option Folder :=
  v.entries.lookup name

def Archive.update (v : Archive) (name : String) (f : Folder → Folder) : Archive :=
  ⟨v.entries.map fun e => if e.1 = name then (e.1, f e.2) else e⟩

def Archive.rename (v : Archive) (name final : String) : Archive :=
  ⟨v.entries.map fun e => if e.1 = name then (final, e.2) else e⟩

/-- The destination without a directory. -/
def Archive.remove (v : Archive) (name : String) : Archive :=
  ⟨v.entries.filter fun e => e.1 ≠ name⟩

def setBytes (file : String) (bytes : ByteArray) (files : Folder) : Folder :=
  files.map fun e => if e.1 = file then (file, bytes) else e

def dropFile (file : String) (files : Folder) : Folder :=
  files.filter fun e => e.1 ≠ file

/-- What a backup asks of the servers and of the file system. -/
inductive ArchiveOp where
  /-- `_safe_directory`, `resolve` and `_load_credential`. -/
  | prerequisites
  /-- `secrets.token_hex(4)`. -/
  | token
  | lock
  | lexists (name : String)
  | mkdir (name : String)
  | create (name file : String)
  /-- The online backup writes the file. -/
  | copy (name file : String)
  /-- The collection is asked, and answers a text. -/
  | ask (method path : String)
  /-- The bytes of the snapshot are written to the file, at most so many: their number. -/
  | stream (name file : String) (maximum : ℕ)
  | read (name file : String)
  | write (name file : String) (bytes : ByteArray)
  | fsync (name : String)
  | replace (name final : String)
  | inspect (name : String)
  | iterdir
  | listdir (name : String)
  | unlink (name file : String)
  | rmdir (name : String)

abbrev ArchiveOp.Reply : ArchiveOp → Type
  | .token => String
  | .lexists _ => Bool
  | .ask _ _ => String
  | .stream _ _ _ => ℕ
  | .read _ _ => ByteArray
  | .inspect _ => Folder
  | .iterdir => List String
  | .listdir _ => List String
  | _ => Unit

abbrev archiveInterface : Interface :=
  ⟨ArchiveOp, fun o => Except ArchiveError o.Reply⟩

abbrev ArchiveProg (α : Type) : Type :=
  Prog archiveInterface ArchiveError α

/-- Ask an operation, and fail as it fails. -/
def archiveOp (o : ArchiveOp) : ArchiveProg o.Reply := do
  let r : Except ArchiveError o.Reply ← Prog.perform (I := archiveInterface) o
  Prog.ofExcept r

def schemaVersion : String :=
  "1"

/-- A copy of the live catalogue: where it is one without errors, it has the version of its
storage. -/
structure CatalogueCopy where
  bytes : ByteArray
  version : ∀ details, Host.sqliteIntegrity bytes = some details →
    details.schemaVersion = schemaVersion

/-- What the environment chooses at an operation: whether it fails, the copy of the catalogue, the
bytes of the snapshot or of a file that could not be written, the answer of the collection and the
random token. -/
structure ArchiveChoice where
  fault : Option ArchiveError
  copied : CatalogueCopy
  bytes : ByteArray
  (answer token : String)

/-- The answer of an operation and the destination after it, when it does not fail. -/
def ArchiveOp.run : (o : ArchiveOp) → ArchiveChoice → Archive →
    Except ArchiveError o.Reply × Archive
  | .prerequisites, _, v => (.ok (), v)
  | .token, x, v => (.ok x.token, v)
  | .lock, _, v => (.ok (), v)
  | .lexists name, _, v => (.ok (v.names.contains name), v)
  | .mkdir name, _, v =>
    if name ∈ v.names then (.error .system, v) else (.ok (), ⟨v.entries ++ [(name, [])]⟩)
  | .create name file, _, v =>
    match v.folder name with
    | none => (.error .system, v)
    | some files =>
      if file ∈ keys files then (.error .system, v)
      else (.ok (), v.update name (· ++ [(file, ByteArray.empty)]))
  | .copy name file, x, v => (.ok (), v.update name (setBytes file x.copied.bytes))
  | .ask _ _, x, v => (.ok x.answer, v)
  | .stream name file maximum, x, v =>
    if x.bytes.size < 1 then (.error (.backup "Qdrant snapshot download was empty"), v)
    else if maximum < x.bytes.size then
      (.error (.backup "Qdrant snapshot exceeds its allowed size"),
        v.update name (setBytes file x.bytes))
    else (.ok x.bytes.size, v.update name (setBytes file x.bytes))
  | .read name file, _, v =>
    match (v.folder name).bind (List.lookup file) with
    | none => (.error (.backup "required backup file is unavailable"), v)
    | some bytes => (.ok bytes, v)
  | .write name file bytes, _, v => (.ok (), v.update name (setBytes file bytes))
  | .fsync _, _, v => (.ok (), v)
  | .replace name final, _, v =>
    if name ∈ v.names ∧ final ∉ v.names then (.ok (), v.rename name final)
    else (.error .system, v)
  | .inspect name, _, v =>
    match v.folder name with
    | none => (.error (.backup "backup does not exist"), v)
    | some files => (.ok files, v)
  | .iterdir, _, v => (.ok v.names, v)
  | .listdir name, _, v =>
    match v.folder name with
    | none => (.error .system, v)
    | some files => (.ok (keys files), v)
  | .unlink name file, _, v =>
    match v.folder name with
    | none => (.error .system, v)
    | some files =>
      if file ∈ keys files then (.ok (), v.update name (dropFile file)) else (.error .system, v)
  | .rmdir name, _, v =>
    match v.folder name with
    | some [] => (.ok (), v.remove name)
    | _ => (.error .system, v)

/-- The destination when an operation fails: what writes a file may have written anything. -/
def ArchiveOp.broken : ArchiveOp → ArchiveChoice → Archive → Archive
  | .copy name file, x, v => v.update name (setBytes file x.bytes)
  | .stream name file _, x, v => v.update name (setBytes file x.bytes)
  | .write name file _, x, v => v.update name (setBytes file x.bytes)
  | _, _, v => v

/-- The answer of an operation and the destination after it. -/
def performArchive (o : ArchiveOp) (x : ArchiveChoice) (v : Archive) :
    Except ArchiveError o.Reply × Archive :=
  match x.fault with
  | some e => (.error e, o.broken x v)
  | none => o.run x v

/-! ## The backup -/

structure Settings where
  (retentionCount maxSnapshotBytes : ℕ)
  collection : String
  retention_pos : 1 ≤ retentionCount
  collection_ok : isCollection collection = true

/-- The `finally` of a program: its result, when that one does not fail. -/
def always {α : Type} (p : ArchiveProg α) (q : ArchiveProg Unit) : ArchiveProg α := do
  let result ← Prog.attempt p
  q
  Prog.ofExcept result

def eachInTurn {γ : Type} (f : γ → ArchiveProg Unit) : List γ → ArchiveProg Unit
  | [] => return ()
  | c :: cs => do
    f c
    eachInTurn f cs

def rmtree (name : String) : ArchiveProg Unit := do
  let files : List String ← archiveOp (.listdir name)
  eachInTurn (fun file => archiveOp (.unlink name file)) files
  archiveOp (.rmdir name)

/-- An expired backup is renamed, and then removed. -/
def pruneOne (name : String) : ArchiveProg Unit := do
  let token : String ← archiveOp .token
  let tombstone := tombstoneName name token
  let _ : Unit ← archiveOp (.replace name tombstone)
  rmtree tombstone

def isPending (name : String) : Bool :=
  (toChars ".pending-").isPrefixOf (toChars name)

def candidates (names : List String) (current : String) : List String :=
  Retention.oldestFirst
    (names.filter fun name => name ≠ current && !isPending name && isBackupName name)

/-- `_prune`: the number of backups that are removed. -/
def prune (retain : ℕ) (current : String) : ArchiveProg ℕ := do
  let names : List String ← archiveOp .iterdir
  let candidates := candidates names current
  let expired := candidates.take (candidates.length + 1 - retain)
  eachInTurn pruneOne expired
  if expired.length = 0 then return 0
  else do
    let _ : Unit ← archiveOp (.fsync "")
    return expired.length

def backupSqlite (pending : String) : ArchiveProg SqliteDetails := do
  let _ : Unit ← archiveOp (.create pending "memory.sqlite3")
  let _ : Unit ← archiveOp (.copy pending "memory.sqlite3")
  let bytes : ByteArray ← archiveOp (.read pending "memory.sqlite3")
  let details ← Prog.ofExcept (demand (Host.sqliteIntegrity bytes) "SQLite integrity check failed")
  let _ : Unit ← archiveOp (.fsync pending)
  return details

/-- `download_snapshot`: the number of bytes. -/
def downloadSnapshot (pending : String) (maximum : ℕ) : ArchiveProg ℕ := do
  let _ : Unit ← archiveOp (.create pending "qdrant.snapshot")
  match ← Prog.attempt (archiveOp (.stream pending "qdrant.snapshot" maximum)) with
  | .error e => do
    let _ : Unit ← archiveOp (.unlink pending "qdrant.snapshot")
    .fail e
  | .ok total => return total

def sha256Of (name file : String) : ArchiveProg String := do
  let bytes : ByteArray ← archiveOp (.read name file)
  return Host.sha256 bytes

def fetchSnapshot (c : Settings) (pending : String) (details : SnapshotDetails) :
    ArchiveProg (ℕ × String) := do
  let downloaded ← downloadSnapshot pending c.maxSnapshotBytes
  let snapshotSha256 ← sha256Of pending "qdrant.snapshot"
  if snapshotSha256 ≠ details.checksum then
    .fail (.backup "downloaded Qdrant snapshot checksum does not match")
  else return (downloaded, snapshotSha256)

/-- `delete_snapshot` of the collection. -/
def removeSnapshot (name : String) : ArchiveProg Unit := do
  let answer : String ← archiveOp (.ask "DELETE" name)
  Prog.ofExcept (deleteSnapshot answer)

/-- The snapshot is removed from the server, and once more at the end if that fails. -/
def dropSnapshot (name : String) : ArchiveProg Unit := do
  match ← Prog.attempt (removeSnapshot name) with
  | .ok _ => return ()
  | .error e => do
    match ← Prog.attempt (removeSnapshot name) with
    | .ok _ => .fail e
    | .error (.backup _) => .fail e
    | .error _ => .fail .last

def writeManifest (pending : String) (document : List (String × Doc)) : ArchiveProg Unit := do
  if shortPairs document = false then .fail .value
  else do
    let _ : Unit ← archiveOp (.create pending "manifest.json")
    let _ : Unit ← archiveOp (.write pending "manifest.json" (line (.obj document)).toByteArray)
    archiveOp (.fsync pending)

def fill (c : Settings) (t : Calendar.DateTime) (pending : String) : ArchiveProg Unit := do
  let sqliteDetails ← backupSqlite pending
  let collection : String ← archiveOp (.ask "GET" c.collection)
  let info ← Prog.ofExcept (collectionInfo collection)
  let created : String ← archiveOp (.ask "POST" c.collection)
  let details ← Prog.ofExcept (createSnapshot created)
  let (downloaded, snapshotSha256) ←
    always (fetchSnapshot c pending details) (dropSnapshot details.name)
  let snapshot : ByteArray ← archiveOp (.read pending "qdrant.snapshot")
  if downloaded ≠ snapshot.size ∨ (downloaded : ℤ) ≠ details.size then
    .fail (.backup "downloaded Qdrant snapshot size does not match")
  else do
    let sqlite : ByteArray ← archiveOp (.read pending "memory.sqlite3")
    writeManifest pending <| manifest (backupId t) (ofChars (isoTime t ++ ['Z']))
      (sqliteManifest sqlite sqliteDetails)
      (qdrantManifest snapshot.size snapshotSha256 details c.collection info)
    archiveOp (.fsync pending)

/-- The directory is read again under its published name, and moved aside if it is refused. -/
def verifyPublished (name : String) : ArchiveProg VerifyReport := do
  let verified ← Prog.attempt do
    let files : Folder ← archiveOp (.inspect name)
    Prog.ofExcept (verifyBackup name files)
  match verified with
  | .ok report => return report
  | .error .value => .fail .value
  | .error .last => .fail .last
  | .error e => do
    let token : String ← archiveOp .token
    let _ : Unit ← archiveOp (.replace name (quarantineName name token))
    let _ : Unit ← archiveOp (.fsync "")
    .fail e

/-- What `create_backup` returns. -/
structure BackupReport where
  backupId : String
  (sqliteMemories retentionRemoved : ℕ)

def publish (c : Settings) (t : Calendar.DateTime) (pending : String) :
    ArchiveProg VerifyReport := do
  let _ : Unit ← archiveOp .lock
  let present : Bool ← archiveOp (.lexists (backupId t))
  if present then .fail (.backup "backup identifier already exists")
  else do
    let _ : Unit ← archiveOp (.mkdir pending)
    fill c t pending
    let _ : Unit ← archiveOp (.replace pending (backupId t))
    let _ : Unit ← archiveOp (.fsync "")
    verifyPublished (backupId t)

def dropPending (pending : String) : ArchiveProg Unit := do
  let present : Bool ← archiveOp (.lexists pending)
  if present then do
    match ← Prog.attempt (rmtree pending) with
    | .error .system => return ()
    | r => Prog.ofExcept r
  else return ()

def createBackup (c : Settings) (t : Calendar.DateTime) : ArchiveProg BackupReport := do
  let _ : Unit ← archiveOp .prerequisites
  if isBackupName (backupId t) = false then
    .fail (.backup "generated backup identifier is invalid")
  else do
    let token : String ← archiveOp .token
    let pending := pendingName (backupId t) token
    match ← Prog.attempt (publish c t pending) with
    | .error .last => .fail .last
    | .error e => do
      dropPending pending
      .fail e
    | .ok verified => do
      let removed ← prune c.retentionCount (backupId t)
      return ⟨backupId t, verified.sqliteMemories, removed⟩

end OpsArchive
