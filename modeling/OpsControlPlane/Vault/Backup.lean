import OpsControlPlane.Lib.Calendar
import OpsControlPlane.Lib.Retention
import OpsControlPlane.Lib.Undisturbed

/-!
# Backups of OpenBao

`createBackup` makes a pending directory in the destination, fills it with the encrypted snapshot,
its digest and a manifest, gives it its published name and removes the oldest backups, one file
after the other.

A directory is its name with the names of its files; what the files hold is not read again.
-/

namespace OpsVault

open Calls Text

/-! ## Names -/

/-- `%Y`: the C library does not pad it. -/
def strftimeYear (year : ℕ) : List Char :=
  if year < 1000 then Nat.toDigits 10 year else Calendar.digits 4 year

/-- `strftime("%Y%m%dT%H%M%S.%fZ")`. -/
def strftime (t : Calendar.DateTime) : List Char :=
  match t.fields with
  | [year, month, day, hour, minute, second, micros] =>
    strftimeYear year ++ Calendar.digits 2 month ++ Calendar.digits 2 day ++ ['T'] ++
      Calendar.digits 2 hour ++ Calendar.digits 2 minute ++ Calendar.digits 2 second ++ ['.'] ++
      Calendar.digits 6 micros ++ ['Z']
  | _ => []

def matchesShape : List (Char → Bool) → List Char → Bool
  | [], [] => true
  | p :: ps, c :: cs => p c && matchesShape ps cs
  | _, _ => false

variable {ps : List (Char → Bool)} {l : List Char}

theorem matchesShape_iff :
    matchesShape ps l = true ↔ List.Forall₂ (fun p c => p c = true) ps l := by
  induction ps generalizing l with
  | nil =>
    cases l with
    | nil => exact iff_of_true rfl .nil
    | cons c l => exact iff_of_false (fun h => by cases h) fun h => by cases h
  | cons p ps ih =>
    cases l with
    | nil => exact iff_of_false (fun h => by cases h) fun h => by cases h
    | cons c l => rw [matchesShape, Bool.and_eq_true, ih, List.forall₂_cons]

theorem length_of_matchesShape (h : matchesShape ps l = true) : l.length = ps.length :=
  (matchesShape_iff.1 h).length_eq.symm

def isDigit (c : Char) : Bool :=
  '0' ≤ c && c ≤ '9'

def backupIdShape : List (Char → Bool) :=
  (toChars "openbao-raft-").map (fun c => (· == c)) ++ List.replicate 8 isDigit ++ [(· == 'T')] ++
    List.replicate 6 isDigit ++ [(· == '.')] ++ List.replicate 6 isDigit ++ [(· == 'Z')]

def isBackupId (name : String) : Bool :=
  matchesShape backupIdShape (toChars name)

def backupName (t : Calendar.DateTime) : String :=
  ofChars (toChars "openbao-raft-" ++ strftime t)

def pendingName (backupId uuid : String) : String :=
  ".pending-" ++ backupId ++ "-" ++ uuid

/-! ## Operations -/

inductive VaultError where
  | backup (message : String)
  | system
deriving DecidableEq

inductive VaultEvent where
  | unlinked (name file : String)
  | removed (name : String)
deriving DecidableEq

/-- The destination, and what was removed in it, the last first. -/
structure Vault where
  entries : List (String × List String)
  log : List VaultEvent

def Vault.names (v : Vault) : List String :=
  v.entries.map Prod.fst

def Vault.files (v : Vault) (name : String) : Option (List String) :=
  (v.entries.find? fun e => e.1 = name).map Prod.snd

/-- The destination without the directory. -/
def Vault.remove (v : Vault) (name : String) : Vault :=
  ⟨v.entries.filter fun e => e.1 ≠ name, .removed name :: v.log⟩

def Vault.unlink (v : Vault) (name file : String) : Vault :=
  ⟨v.entries.map fun e => if e.1 = name then (e.1, e.2.filter (· ≠ file)) else e,
    .unlinked name file :: v.log⟩

def Vault.create (v : Vault) (name file : String) : Vault :=
  ⟨v.entries.map fun e => if e.1 = name then (e.1, e.2 ++ [file]) else e, v.log⟩

def Vault.replace (v : Vault) (name final : String) : Vault :=
  ⟨v.entries.map fun e => if e.1 = name then (final, e.2) else e, v.log⟩

/-- What a backup asks of the server and of the file system. -/
inductive VaultOp where
  /-- `_safe_destination`, `_recipient`, `_opener` and `_credential`. -/
  | prerequisites
  | lexists (name : String)
  | mkdir (name : String)
  | login
  | create (name file : String)
  /-- The rest of `_stream_snapshot`: the number of bytes of the snapshot. -/
  | stream (name : String)
  | revoke
  /-- `_inspect_age` and `_sha256`: the number of encrypted bytes. -/
  | inspect (name : String)
  | write (name file : String)
  | fsync (name : String)
  | replace (name final : String)
  | iterdir
  /-- The names in a directory of the user, with regular files. -/
  | listdir (name : String)
  | unlink (name file : String)
  | rmdir (name : String)
deriving DecidableEq

abbrev VaultOp.Reply : VaultOp → Type
  | .lexists _ => Bool
  | .stream _ => ℕ
  | .inspect _ => ℕ
  | .iterdir => List String
  | .listdir _ => List String
  | _ => Unit

abbrev vaultInterface : Interface :=
  ⟨VaultOp, fun o => Except VaultError o.Reply⟩

abbrev VaultProg (α : Type) : Type :=
  Prog vaultInterface VaultError α

/-- Ask an operation, and fail as it fails. -/
def vaultOp (o : VaultOp) : VaultProg o.Reply := do
  let r : Except VaultError o.Reply ← Prog.perform (I := vaultInterface) o
  Prog.ofExcept r

/-- What the environment chooses at an operation: whether it fails, and the sizes. -/
structure VaultChoice where
  fault : Option VaultError
  (snapshotBytes encryptedBytes : ℕ)

/-- The answer of an operation and the destination after it, when it does not fail. -/
def VaultOp.run : (o : VaultOp) → VaultChoice → Vault → Except VaultError o.Reply × Vault
  | .prerequisites, _, v => (.ok (), v)
  | .lexists name, _, v => (.ok (v.names.contains name), v)
  | .mkdir name, _, v =>
    if name ∈ v.names then (.error .system, v)
    else (.ok (), ⟨v.entries ++ [(name, [])], v.log⟩)
  | .login, _, v => (.ok (), v)
  | .create name file, _, v =>
    match v.files name with
    | none => (.error .system, v)
    | some files => if file ∈ files then (.error .system, v) else (.ok (), v.create name file)
  | .stream _, x, v => (.ok x.snapshotBytes, v)
  | .revoke, _, v => (.ok (), v)
  | .inspect _, x, v => (.ok x.encryptedBytes, v)
  | .write _ _, _, v => (.ok (), v)
  | .fsync _, _, v => (.ok (), v)
  | .replace name final, _, v =>
    if name ∈ v.names ∧ final ∉ v.names then (.ok (), v.replace name final)
    else (.error .system, v)
  | .iterdir, _, v => (.ok v.names, v)
  | .listdir name, _, v =>
    match v.files name with
    | none => (.error .system, v)
    | some files => (.ok files, v)
  | .unlink name file, _, v =>
    match v.files name with
    | none => (.error .system, v)
    | some files => if file ∈ files then (.ok (), v.unlink name file) else (.error .system, v)
  | .rmdir name, _, v =>
    match v.files name with
    | some [] => (.ok (), v.remove name)
    | _ => (.error .system, v)

/-- The answer of an operation and the destination after it. -/
def performVault (o : VaultOp) (x : VaultChoice) (v : Vault) : Except VaultError o.Reply × Vault :=
  match x.fault with
  | some e => (.error e, v)
  | none => o.run x v

/-! ## The backup -/

def expectedFiles : List String :=
  ["snapshot.age", "snapshot.age.sha256", "manifest.json"]

def eachInTurn {γ : Type} (f : γ → VaultProg Unit) : List γ → VaultProg Unit
  | [] => return ()
  | c :: cs => do
    f c
    eachInTurn f cs

def removeBackup (name : String) : VaultProg Unit := do
  if isBackupId name = false then .fail (.backup "retention target is unsafe")
  else do
    let files : List String ← vaultOp (.listdir name)
    if files.toFinset ≠ expectedFiles.toFinset then
      .fail (.backup "retention target contents are unexpected")
    else do
      eachInTurn (fun file => vaultOp (.unlink name file))
        ["manifest.json", "snapshot.age", "snapshot.age.sha256"]
      vaultOp (.rmdir name)

def isPending (name : String) : Bool :=
  (toChars ".pending-").isPrefixOf (toChars name)

def backupsOf (names : List String) : List String :=
  names.filter fun name => !isPending name && isBackupId name

/-- `_retention`: the number of backups that are removed. -/
def retention (keep : ℕ) : VaultProg ℕ := do
  let names : List String ← vaultOp .iterdir
  let expired := (Retention.newestFirst (backupsOf names)).drop keep
  eachInTurn removeBackup expired
  if expired.length = 0 then return 0
  else do
    let _ : Unit ← vaultOp (.fsync "")
    return expired.length

/-- What `create_backup` returns. -/
structure VaultReport where
  backupId : String
  (encryptedBytes retentionRemoved : ℕ)
deriving DecidableEq

def streamSnapshot (pending : String) : VaultProg ℕ := do
  let _ : Unit ← vaultOp (.create pending "snapshot.age")
  let size : ℕ ← vaultOp (.stream pending)
  if size < 1 then .fail (.backup "OpenBao returned an empty snapshot")
  else return size

/-- The snapshot is taken, and the token revoked whatever happens. -/
def acquire (pending : String) : VaultProg Unit := do
  let _ : Unit ← vaultOp .login
  let streamed ← Prog.attempt (streamSnapshot pending)
  let revoked ← Prog.attempt (vaultOp .revoke)
  match streamed, revoked with
  | .ok _, .ok _ => return ()
  | _, _ => .fail (.backup "snapshot acquisition or token revocation failed")

def writeFile (pending file : String) : VaultProg Unit := do
  let _ : Unit ← vaultOp (.create pending file)
  let _ : Unit ← vaultOp (.write pending file)
  vaultOp (.fsync pending)

/-- The pending directory is filled and gets its published name: the number of encrypted bytes. -/
def fillAndRename (backupId pending : String) : VaultProg ℕ := do
  acquire pending
  let ageSize : ℕ ← vaultOp (.inspect pending)
  writeFile pending "snapshot.age.sha256"
  writeFile pending "manifest.json"
  let _ : Unit ← vaultOp (.fsync pending)
  let _ : Unit ← vaultOp (.replace pending backupId)
  let _ : Unit ← vaultOp (.fsync "")
  return ageSize

/-- The body of `create_backup`, once the pending directory is there. -/
def fillAndPublish (keep : ℕ) (backupId pending : String) : VaultProg VaultReport := do
  let ageSize ← fillAndRename backupId pending
  let removed ← retention keep
  return ⟨backupId, ageSize, removed⟩

/-- `shutil.rmtree`, which ignores errors. -/
def rmtree (name : String) : VaultProg Unit := do
  match ← Prog.attempt (vaultOp (.listdir name)) with
  | .error _ => return ()
  | .ok files => do
    eachInTurn (fun file => do
      let _ ← Prog.attempt (vaultOp (.unlink name file))
      return ()) files
    let _ ← Prog.attempt (vaultOp (.rmdir name))
    return ()

/-- The end of `create_backup`. -/
def dropPending (pending : String) : VaultProg Unit := do
  let present : Bool ← vaultOp (.lexists pending)
  if present then rmtree pending else return ()

/-- `create_backup`, at an instant and with a random suffix. -/
def createBackup (keep : ℕ) (t : Calendar.DateTime) (uuid : String) :
    VaultProg VaultReport := do
  let _ : Unit ← vaultOp .prerequisites
  let backupId := backupName t
  let pending := pendingName backupId uuid
  if isBackupId backupId = false then
    .fail (.backup "generated backup identifier is invalid")
  else do
    let pendingExists : Bool ← vaultOp (.lexists pending)
    let finalExists : Bool ← vaultOp (.lexists backupId)
    if pendingExists || finalExists then .fail (.backup "backup destination already exists")
    else do
      let _ : Unit ← vaultOp (.mkdir pending)
      let result ← Prog.attempt (fillAndPublish keep backupId pending)
      dropPending pending
      Prog.ofExcept result

end OpsVault
