import OpsControlPlane.Lib.SpacedJson

/-!
# The recovery bundle

The packager collects the newest backup of each component, copies of the databases of the clients
and the telemetry archives that are not replicated yet, checks their sizes, and encrypts an archive
of them. `latest.json` is its report.
-/

namespace OpsRecovery

open JsonText Text

/-! ## Files -/

/-- What the manifest of a telemetry archive says. -/
structure Entry (τ : Type) where
  (file sha256 : String)
  bytes : ℕ
  source : String
  createdAt : τ
  sealedPartition : Bool

/-- The contents of files, with the tools that read and write them. The times are floats, with
their numbers of seconds. -/
class Medium (β τ : Type) extends FloatText τ where
  seconds : τ → ℚ
  size : β → ℕ
  sha256 : β → String
  /-- `PRAGMA integrity_check`. -/
  integrity : β → Bool
  /-- The copy of a database that the backup API writes. -/
  snapshot : β → β
  /-- `age -R`, of an archive of the members. -/
  encrypt : List (String × β) → β
  /-- `age -d`, and the members of the archive. -/
  decrypt : β → Option (List (String × β))
  /-- The content begins as a file of `age`. -/
  aged : β → Bool
  /-- `json.loads`, of the manifest of an archive. -/
  entryOf : β → Option (Entry τ)
  /-- The archive decrypts and expands to the database that its manifest records. -/
  expands : Entry τ → β → Bool

structure File (β : Type) where
  content : β
  /-- A regular file, reached without a link, which others cannot write. -/
  plain : Bool
  identity : Bool

def maxFile : ℕ := 512 * 1024 * 1024

def maxTotal : ℕ := 2 * 1024 * 1024 * 1024

/-- What the packager raises, a `ValueError` with its text. -/
structure BundleError where
  message : String
deriving DecidableEq

variable {β τ : Type} [Medium β τ]

def within (hours : ℕ) (now t : τ) : Bool :=
  0 ≤ Medium.seconds β now - Medium.seconds β t ∧
    Medium.seconds β now - Medium.seconds β t ≤ hours * 3600

def older (hours : ℕ) (now t : τ) : Bool :=
  hours * 3600 < Medium.seconds β now - Medium.seconds β t

def regular (τ : Type) [Medium β τ] (f : File β) : Except BundleError ℕ :=
  if f.plain ∧ 0 < Medium.size τ f.content ∧ Medium.size τ f.content ≤ maxFile then
    .ok (Medium.size τ f.content)
  else .error ⟨"Unsafe backup member"⟩

/-! ## Component backups -/

/-- A backup that `latest` may select. -/
structure Candidate (τ α : Type) where
  mtime : τ
  symlink : Bool
  backup : α

def newestOf (β : Type) [Medium β τ] {α : Type} : List (Candidate τ α) → Option (Candidate τ α)
  | [] => none
  | c :: cs =>
    match newestOf β cs with
    | none => some c
    | some d => if Medium.seconds β c.mtime < Medium.seconds β d.mtime then some d else some c

def latest (β : Type) [Medium β τ] {α : Type} (now : τ) (candidates : List (Candidate τ α)) :
    Except BundleError α :=
  match newestOf β candidates with
  | none => .error ⟨"Missing component backup"⟩
  | some c =>
    if c.symlink ∨ older (β := β) 30 now c.mtime then .error ⟨"Stale or unsafe component backup"⟩
    else .ok c.backup

structure MemoryFiles (β : Type) where
  (sqlite qdrant manifest : File β)

structure VaultFiles (β : Type) where
  (snapshot manifest : File β)

structure NativeFiles (β : Type) where
  (pilot approvals manifest : File β)

/-! ## Telemetry -/

/-- `(?:history|logs|[0-9]{4}-[0-9]{2}-[0-9]{2})-(?:sealed|[0-9]{8}T[0-9]{6}Z)`. -/
def isStem (s : List Char) : Bool :=
  let digits (n : ℕ) (l : List Char) : Bool := l.length = n ∧ l.all Char.isDigit
  let date (l : List Char) : Bool :=
    digits 4 (l.take 4) && (l.drop 4).head? = some '-' && digits 2 ((l.drop 5).take 2) &&
      (l.drop 7).head? = some '-' && digits 2 (l.drop 8)
  let stamp (l : List Char) : Bool :=
    digits 8 (l.take 8) && (l.drop 8).head? = some 'T' && digits 6 ((l.drop 9).take 6) &&
      l.drop 15 = ['Z']
  (List.range s.length).any fun n =>
    ((s.take n = toChars "history" ∨ s.take n = toChars "logs") || date (s.take n)) &&
      s[n]? = some '-' && ((s.drop (n + 1) = toChars "sealed" : Bool) || stamp (s.drop (n + 1)))

/-- A telemetry archive, as the telemetry backup writes it, with its manifest. -/
structure Archive (β τ : Type) [Medium β τ] where
  stem : String
  stem_shape : isStem (toChars stem) = true
  entry : Entry τ
  (file manifest : File β)
  entry_read : Medium.entryOf manifest.content = some entry
  entry_file : entry.file = stem ++ ".sqlite3.age"
  entry_sha256 : entry.sha256 = Medium.sha256 τ file.content
  entry_bytes : entry.bytes = Medium.size τ file.content
  expands : Medium.expands entry file.content = true

/-- The telemetry backups: `latest.json`, the archives in the order of the names of their
manifests, and the digests that the ledger of the replication has for the names of archives. -/
structure Telemetry (β τ : Type) [Medium β τ] where
  verified : Bool
  checkedAt : τ
  status : File β
  archives : List (Archive β τ)
  stems_nodup : (archives.map Archive.stem).Nodup
  ledger : String → Option String

/-- The newest open archive of a source: `newest.get(source)`. -/
def newest (source : String) (archives : List (Archive β τ)) : Option (Archive β τ) :=
  archives.foldl (fun best a =>
    if a.entry.source = source ∧ a.entry.sealedPartition = false ∧
        (best.map fun b => Medium.seconds β b.entry.createdAt).getD 0 <
          Medium.seconds β a.entry.createdAt
      then some a else best) none

/-- The archive is carried: it is not replicated, or it is the current one of its source. -/
def Telemetry.carries (t : Telemetry β τ) (a : Archive β τ) : Bool :=
  t.ledger a.entry.file ≠ some a.entry.sha256 ∨
    (newest a.entry.source t.archives).any fun b => b.entry.file = a.entry.file

def Archive.member (a : Archive β τ) : String :=
  "telemetry/" ++ a.stem ++ ".sqlite3.age"

def Archive.manifestMember (a : Archive β τ) : String :=
  "telemetry/" ++ a.stem ++ ".json"

def Archive.select (a : Archive β τ) : Except BundleError (List (String × File β)) := do
  let _ ← regular τ a.file
  if Medium.sha256 τ a.file.content ≠ a.entry.sha256 then
    .error ⟨"Telemetry ciphertext differs"⟩
  else return [(a.member, a.file), (a.manifestMember, a.manifest)]

def Telemetry.select (now : τ) (t : Telemetry β τ) :
    Except BundleError (List (String × File β)) := do
  if t.verified = false ∨ older (β := β) 36 now t.checkedAt then
    .error ⟨"Telemetry backup is stale"⟩
  else
    let carried ← (t.archives.filter t.carries).mapM Archive.select
    return carried.flatten ++ [("telemetry/status.json", t.status)]

/-! ## The packager -/

/-- `[0-9]{8}T[0-9]{6}\.[0-9]{6}Z`. -/
def isStamp (s : List Char) : Bool :=
  let digits (n : ℕ) (l : List Char) : Bool := l.length = n ∧ l.all Char.isDigit
  digits 8 (s.take 8) && (s.drop 8).head? = some 'T' && digits 6 ((s.drop 9).take 6) &&
    (s.drop 15).head? = some '.' && digits 6 ((s.drop 16).take 6) && s.drop 22 = ['Z']

structure Machine (β τ : Type) [Medium β τ] where
  now : τ
  /-- The time as the name of a bundle. -/
  stamp : String
  stamp_shape : isStamp (toChars stamp) = true
  free : ℕ
  memory : List (Candidate τ (MemoryFiles β))
  vault : List (Candidate τ (VaultFiles β))
  broker : List (Candidate τ (File β))
  native : List (Candidate τ (NativeFiles β))
  zulip : List (Candidate τ (File β))
  (sessionKey webpush unsealShares : File β)
  telemetry : Option (Telemetry β τ)
  (cliPilot workflows memorySync : Option (File β))
  sessions : File β
  /-- `age`, or the verification of its result, fails. -/
  ageFails : Bool

def isDatabase (name : String) : Bool :=
  (toChars ".db").isSuffixOf (toChars name) || (toChars ".sqlite3").isSuffixOf (toChars name)

def checkComponent (τ : Type) [Medium β τ] (member : String × File β) :
    Except BundleError Unit := do
  let _ ← regular τ member.2
  if isDatabase member.1 ∧ Medium.integrity τ member.2.content = false then
    .error ⟨"SQLite verification failed"⟩
  else return ()

def sources (m : Machine β τ) : Except BundleError (List (String × File β)) := do
  let memory ← latest β m.now m.memory
  let vault ← latest β m.now m.vault
  let broker ← latest β m.now m.broker
  let native ← latest β m.now m.native
  let zulip ← latest β m.now m.zulip
  let selected := [("broker/state.db", broker), ("openbao/snapshot.age", vault.snapshot),
    ("openbao/manifest.json", vault.manifest), ("zulip/bundle.tar.age", zulip),
    ("pwa/session.key", m.sessionKey), ("pwa/webpush.pem", m.webpush),
    ("openbao/unseal-shares.age", m.unsealShares), ("memory/memory.sqlite3", memory.sqlite),
    ("memory/qdrant.snapshot", memory.qdrant), ("memory/manifest.json", memory.manifest),
    ("native/pilot.sqlite3", native.pilot), ("native/approvals.sqlite3", native.approvals),
    ("native/manifest.json", native.manifest)]
  selected.forM (checkComponent τ)
  match m.telemetry with
  | none => return selected
  | some t =>
    let telemetry ← t.select m.now
    return selected ++ telemetry

def clientCopy (τ : Type) [Medium β τ] (source : Option (File β)) :
    Except BundleError (File β) := do
  match source with
  | none => .error ⟨"Missing client state"⟩
  | some f =>
    let _ ← regular τ f
    let copy := Medium.snapshot τ f.content
    if Medium.integrity τ copy = false then .error ⟨"SQLite verification failed"⟩
    else return ⟨copy, true, false⟩

def addClientDatabases (m : Machine β τ) (selected : List (String × File β)) :
    Except BundleError (List (String × File β)) := do
  let cliPilot ← clientCopy τ m.cliPilot
  let workflows ← clientCopy τ m.workflows
  let memorySync ← clientCopy τ m.memorySync
  let sessions ← clientCopy τ (some m.sessions)
  return selected ++ [("clients/cli-pilot.sqlite3", cliPilot),
    ("clients/workflows.sqlite3", workflows), ("clients/memory-sync.sqlite3", memorySync),
    ("pwa/sessions.sqlite3", sessions)]

/-- The report of the packager, `latest.json`. -/
structure Report (τ : Type) where
  sha256 : String
  bytes : ℕ
  members : List String
  createdAt : τ
  bundle : String

def Report.fields (r : Report τ) : List (String × Json τ) :=
  [("sha256", .str r.sha256), ("bytes", .int r.bytes), ("members", .arr (r.members.map .str)),
    ("decryption_verified", .bool true), ("private_identity_included", .bool false),
    ("full_stack_restore_verified", .bool false), ("created_at", .float r.createdAt),
    ("bundle", .str r.bundle)]

/-- `json.dumps` of the report. -/
def Report.text [FloatText τ] (r : Report τ) : List Char :=
  dumpsAscii (.obj r.fields)

structure Published (β τ : Type) where
  bundle : β
  report : Report τ

/-- `sorted(selected.items())`. -/
def inOrder {α : Type} (selected : List (String × α)) : List (String × α) :=
  selected.mergeSort fun a b => a.1 ≤ b.1

def contents (selected : List (String × File β)) : List (String × β) :=
  (inOrder selected).map fun m => (m.1, m.2.content)

def reportOf (m : Machine β τ) (selected : List (String × File β)) : Report τ :=
  let bundle : β := Medium.encrypt τ (contents selected)
  ⟨Medium.sha256 τ bundle, Medium.size τ bundle, (inOrder selected).map Prod.fst, m.now,
    m.stamp ++ ".tar.age"⟩

/-- `package`, with the time and the name that `main` adds to its report. -/
def package (m : Machine β τ) (selected : List (String × File β)) :
    Except BundleError (Published β τ) := do
  if selected.any fun s => s.2.identity then
    .error ⟨"Private recovery identity must never be bundled"⟩
  else
    let sizes ← selected.mapM fun s => regular τ s.2
    if maxTotal < sizes.sum then .error ⟨"Recovery bundle exceeds bound"⟩
    else if m.ageFails then .error ⟨"Encryption failed"⟩
    else return ⟨Medium.encrypt τ (contents selected), reportOf m selected⟩

/-- What `main` selects. -/
def selection (m : Machine β τ) : Except BundleError (List (String × File β)) := do
  let selected ← sources m
  addClientDatabases m selected

def packageMain (m : Machine β τ) : Except BundleError (Published β τ) := do
  if m.free < maxTotal * 2 then .error ⟨"Insufficient recovery workspace"⟩
  else
    let selected ← selection m
    package m selected

end OpsRecovery
