import OpsControlPlane.Lib.Fallible
import Mathlib.Data.List.Basic

/-!
# Files published through a slot

`transactionAtomicBytes` writes a file of a transaction in a fixed slot next to it and renames it.
It may be killed between any two of its operations, and is then called again: a slot that holds the
file is published, one that may be a part of it is removed, and anything else is refused.
-/

namespace OpsStaging

open Calls

/-! ## The directory -/

abbrev Bytes : Type :=
  List UInt8

/-- `stat.S_IMODE`. -/
abbrev Mode : Type :=
  BitVec 12

inductive Kind where
  | regular | directory | link | other
deriving DecidableEq

structure File where
  kind : Kind
  (uid gid : ℕ)
  mode : Mode
  nlink : ℕ
  content : Bytes
deriving DecidableEq

inductive Slot where
  | path | staging
deriving DecidableEq

/-- The two names of the directory, and the group that it gives to its files. -/
structure Host where
  (path staging : Option File)
  gid : ℕ

def Host.file (h : Host) : Slot → Option File
  | .path => h.path
  | .staging => h.staging

inductive Fault where
  | deployment (code message : String)
  | os
deriving DecidableEq

inductive Op where
  | mkdirParent
  | lexists (slot : Slot)
  | lstat (slot : Slot)
  | readBytes (slot : Slot)
  | unlink
  /-- `os.replace(staging, path)`. -/
  | replace
  /-- `os.open(staging, ... | os.O_EXCL, mode)`. -/
  | openNew (mode : Mode)
  | fchown
  | fchmod (mode : Mode)
  | write (view : Bytes)
  | fsync
  | fsyncDirectory

def Op.Reply : Op → Type
  | .lexists _ => Bool
  | .lstat _ => File
  | .readBytes _ => Bytes
  | .write _ => ℕ
  | .mkdirParent | .unlink | .replace | .openNew _ | .fchown | .fchmod _ | .fsync
  | .fsyncDirectory => Unit

abbrev StagingI : Interface :=
  fallible Op.Reply Fault

structure Choice where
  umask : Mode := 0o022
  written : ℕ := 0

/-- `os.write` writes at least a byte, and not more than there are. -/
def Choice.count (x : Choice) (view : Bytes) : ℕ :=
  min (max 1 x.written) view.length

def Host.modify (h : Host) (f : File → File) : Except Fault Unit × Host :=
  match h.staging with
  | some file => (.ok (), { h with staging := some (f file) })
  | none => (.error .os, h)

def orOs {β : Type} : Option β → Except Fault β
  | some b => .ok b
  | none => .error .os

def act (o : Op) (x : Choice) (h : Host) : Except Fault o.Reply × Host :=
  match o with
  | .mkdirParent => (.ok (), h)
  | .lexists slot => (.ok (h.file slot).isSome, h)
  | .lstat slot => (orOs (h.file slot), h)
  | .readBytes slot => match h.file slot with
    | some f => (if f.kind = .directory then .error .os else .ok f.content, h)
    | none => (.error .os, h)
  | .unlink => match h.staging with
    | some f => if f.kind = .directory then (.error .os, h)
      else (.ok (), { h with staging := none })
    | none => (.error .os, h)
  | .replace => match h.staging with
    | some f => (.ok (), { h with path := some f, staging := none })
    | none => (.error .os, h)
  | .openNew mode => match h.staging with
    | some _ => (.error .os, h)
    | none => (.ok (), { h with staging := some ⟨.regular, 0, h.gid, mode &&& ~~~x.umask, 1, []⟩ })
  | .fchown => h.modify fun f => { f with uid := 0, gid := 0 }
  | .fchmod mode => h.modify fun f => { f with mode := mode }
  | .write view =>
    let r := h.modify fun f => { f with content := f.content ++ view.take (x.count view) }
    (r.1.map fun _ => x.count view, r.2)
  | .fsync => (.ok (), h)
  | .fsyncDirectory => (.ok (), h)

/-! ## The call -/

abbrev Publish (β : Type) : Type :=
  Prog StagingI Fault β

def op (o : Op) : Publish o.Reply :=
  Prog.request o

def lexists (slot : Slot) : Publish Bool :=
  op (.lexists slot)

def lstat (slot : Slot) : Publish File :=
  op (.lstat slot)

def readBytes (slot : Slot) : Publish Bytes :=
  op (.readBytes slot)

def unlink : Publish Unit :=
  op .unlink

def replace : Publish Unit :=
  op .replace

def write (view : Bytes) : Publish ℕ :=
  op (.write view)

def fsyncDirectory : Publish Unit :=
  op .fsyncDirectory

def refuse (c : Prop) [Decidable c] (fault : Fault) : Publish Unit :=
  if c then Prog.fail fault else pure ()

/-- `except OSError`. -/
def unavailable {β : Type} (fault : Fault) (p : Publish β) : Publish β := do
  match ← Prog.attempt p with
  | .ok b => pure b
  | .error _ => Prog.fail fault

def writeFailed (message : String) : Fault :=
  .deployment "write_failed" message

def rollbackFailed (message : String) : Fault :=
  .deployment "rollback_failed" message

def Exact (payload : Bytes) (mode : Mode) (f : File) : Prop :=
  f.kind = .regular ∧ f.uid = 0 ∧ f.gid = 0 ∧ f.mode = mode ∧ f.content = payload

instance (payload : Bytes) (mode : Mode) (f : File) : Decidable (Exact payload mode f) := by
  unfold Exact
  infer_instance

/-- What may be a part of it: a private file of root, not longer than it. -/
def Attributable (payload : Bytes) (f : File) : Prop :=
  f.kind = .regular ∧ f.uid = 0 ∧ f.gid = 0 ∧ f.nlink = 1 ∧ f.mode &&& 0o022 = 0 ∧
    f.content.length ≤ payload.length

instance (payload : Bytes) (f : File) : Decidable (Attributable payload f) := by
  unfold Attributable
  infer_instance

def validateExact (payload : Bytes) (mode : Mode) (slot : Slot) : Publish Unit := do
  let item ← unavailable (writeFailed "transaction file is unavailable") (lstat slot)
  let content ← unavailable (writeFailed "transaction file is unavailable") (readBytes slot)
  refuse (¬Exact payload mode { item with content := content })
    (writeFailed "transaction file differs from review")

def writeAll : ℕ → Bytes → Publish Unit
  | 0, _ => pure ()
  | fuel + 1, view =>
    if view = [] then pure ()
    else do
      let written ← write view
      refuse (written ≤ 0) (writeFailed "transaction file write was incomplete")
      writeAll fuel (view.drop written)

/-- The file is written in the slot and renamed. -/
def publish (payload : Bytes) (mode : Mode) : Publish Unit := do
  if ← lexists .path then
    validateExact payload mode .path
  else
    op (.openNew mode)
    op .fchown
    op (.fchmod mode)
    writeAll payload.length payload
    op .fsync
    replace
    fsyncDirectory

def publishStaging (payload : Bytes) (mode : Mode) : Publish Unit := do
  if ← lexists .path then
    validateExact payload mode .path
    unlink
    fsyncDirectory
  else
    replace
    fsyncDirectory

/-- The slot does not hold the file. -/
def discardStaging (payload : Bytes) (fault : Fault) : Publish Unit := do
  let partialFile ← unavailable (writeFailed "transaction staging file changed") (lstat .staging)
  refuse (¬Attributable payload partialFile) fault
  unlink
  fsyncDirectory

/-- The directory and the name of a file. -/
structure Path where
  (parent name : String)
deriving DecidableEq

def transactionAtomicBytes (path staging : Path) (payload : Bytes) (mode : Mode) :
    Publish Unit := do
  refuse (staging.parent ≠ path.parent ∨ staging = path)
    (writeFailed "transaction staging path is invalid")
  op .mkdirParent
  if ← lexists .staging then
    match ← Prog.attempt (validateExact payload mode .staging) with
    | .ok _ => publishStaging payload mode
    | .error fault =>
      discardStaging payload fault
      publish payload mode
  else publish payload mode

def removeAttributableTransactionStaging (payload : Bytes) : Publish Unit := do
  if ← lexists .staging then
    let item ← unavailable (rollbackFailed "transaction staging file changed") (lstat .staging)
    refuse (¬Attributable payload item) (rollbackFailed "transaction staging file is unsafe")
    unlink
    fsyncDirectory

end OpsStaging
