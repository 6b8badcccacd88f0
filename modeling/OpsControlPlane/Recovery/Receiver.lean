import OpsControlPlane.Lib.Undisturbed
import OpsControlPlane.Lib.JsonText

/-!
# The recovery receiver

`receive` takes a stream of tar entries into a directory of its own, checks the ciphertext against
the manifest that came with it, and gives the directory its published name. A copy that is already
published is compared and left as it is. The calls run one at a time.

A stream is any sequence of entries, with the data that is there for each. Directories that killed
calls left under their temporary names are not kept, no call reads them.
-/

namespace OpsReceiver

open Calls JsonText

abbrev Bytes : Type :=
  List UInt8

class Library (F : Type) where
  sha256 : Bytes → String
  /-- `json.loads` of a text file, none if it raises. -/
  loads : Bytes → Option (Json F)
  equals : F → ℤ → Bool

/-- A member of the archive: its name, whether it is a regular file, the size that it declares and
the data that the stream has for it. -/
structure Entry where
  name : String
  isFile : Bool
  size : ℤ
  data : Bytes

/-- The entries, and whether the archive ends without an error after them. -/
structure Stream where
  entries : List Entry
  ends : Bool

def Entry.content (e : Entry) : Bytes :=
  e.data.take e.size.toNat

abbrev Folder : Type :=
  List (String × Bytes)

structure Root where
  published : List (String × Folder)
  stage : Option Folder
deriving DecidableEq

def limit : ℕ :=
  256 * 1024 * 1024

def quota : ℕ :=
  20 * 1024 * 1024 * 1024

def bundleName : String :=
  "bundle.tar.age"

def manifestName : String :=
  "manifest.json"

def ageHeader : Bytes :=
  "age-encryption.org/v1\n".toList.map fun c => UInt8.ofNat c.toNat

/-! ## Operations -/

inductive ReceiverOp where
  | makeRoot
  | makeStage
  /-- `shutil.disk_usage(root).free`. -/
  | free
  /-- The file is made, exclusively. -/
  | create (name : String)
  | write (name : String) (chunk : Bytes)
  /-- `fsync` and `chmod`. -/
  | finish (name : String)
  | read (name : String)
  /-- The published directory of the name, if there is one, private and with regular files. -/
  | existing (name : String)
  /-- `root.glob('dell-daily-*')`. -/
  | folders
  | rename (name : String)
  | removeStage

abbrev ReceiverOp.Reply : ReceiverOp → Type
  | .free => ℕ
  | .read _ => Bytes
  | .existing _ => Option Folder
  | .folders => List (String × Folder)
  | _ => Unit

/-- The operations of the calls. An operation may raise. -/
abbrev receiverInterface : Interface :=
  ⟨ReceiverOp, fun o => Except Unit o.Reply⟩

abbrev ReceiverProg (α : Type) : Type :=
  Prog receiverInterface Unit α

/-- Ask an operation, and raise as it raises. -/
def call (o : ReceiverOp) : ReceiverProg o.Reply := do
  let r : Except Unit o.Reply ← Prog.perform (I := receiverInterface) o
  Prog.ofExcept r

/-- What the environment chooses at an operation. -/
structure ReceiverChoice where
  raises : Bool
  free : ℕ

def Folder.append (folder : Folder) (name : String) (chunk : Bytes) : Folder :=
  folder.map fun f => if f.1 = name then (f.1, f.2 ++ chunk) else f

def Root.onStage (r : Root) (f : Folder → Folder) : Root :=
  { r with stage := r.stage.map f }

/-- The answer of an operation that the environment lets succeed, and the root after it. -/
def ReceiverOp.run : (o : ReceiverOp) → ReceiverChoice → Root → Except Unit o.Reply × Root
  | .makeRoot, _, r => (.ok (), r)
  | .makeStage, _, r => (.ok (), { r with stage := some [] })
  | .free, x, r => (.ok x.free, r)
  | .create name, _, r =>
    if r.stage.any fun folder => (folder.lookup name).isSome then (.error (), r)
    else (.ok (), r.onStage fun folder => folder ++ [(name, [])])
  | .write name chunk, _, r => (.ok (), r.onStage fun folder => folder.append name chunk)
  | .finish _, _, r => (.ok (), r)
  | .read name, _, r =>
    match r.stage.bind (·.lookup name) with
    | some content => (.ok content, r)
    | none => (.error (), r)
  | .existing name, _, r => (.ok (r.published.lookup name), r)
  | .folders, _, r => (.ok r.published, r)
  | .rename name, _, r => (.ok (), ⟨r.published ++ [(name, r.stage.getD [])], none⟩)
  | .removeStage, _, r => (.ok (), { r with stage := none })

/-- The answer of an operation and the root after it. The removal at the end raises only if there
is something to remove. -/
def act (o : ReceiverOp) (x : ReceiverChoice) (r : Root) : Except Unit o.Reply × Root :=
  match o with
  | .removeStage =>
    if x.raises ∧ r.stage.isSome then (.error (), r) else ReceiverOp.removeStage.run x r
  | o => if x.raises then (.error (), r) else o.run x r

/-! ## The call -/

/-- `shutil.copyfileobj`, with a bound on the number of chunks. -/
def copyChunks (name : String) : ℕ → Bytes → ReceiverProg Unit
  | 0, _ => return ()
  | n + 1, data =>
    if data = [] then return ()
    else do
      call (.write name (data.take (1024 * 1024)))
      copyChunks name n (data.drop (1024 * 1024))

/-- The largest size of a member. -/
def maximum (name : String) : ℕ :=
  if name = bundleName then limit else 16384

/-- The member may be received after those of the names. -/
def Entry.allowed (e : Entry) (seen : List String) : Bool :=
  (e.name = bundleName ∨ e.name = manifestName) ∧ e.name ∉ seen ∧ e.isFile ∧
    0 < e.size ∧ e.size ≤ maximum e.name

def receiveEntry (seen : List String) (e : Entry) : ReceiverProg (List String) :=
  if e.allowed seen then do
    let free : ℕ ← call .free
    if free < e.size + 512 * 1024 * 1024 then .fail ()
    else do
      call (.create e.name)
      copyChunks e.name e.content.length e.content
      -- The stream ends within the member.
      if e.data.length < e.size then .fail ()
      else do
        call (.finish e.name)
        return seen ++ [e.name]
  else .fail ()

def receiveEntries (seen : List String) : List Entry → ReceiverProg (List String)
  | [] => return seen
  | e :: entries => do
    let seen ← receiveEntry seen e
    receiveEntries seen entries

def isDigest (s : String) : Bool :=
  s.toList.length = 64 ∧ s.toList.all fun c => ('0' ≤ c ∧ c ≤ '9') ∨ ('a' ≤ c ∧ c ≤ 'f')

section library

variable {F : Type} [Library F]

def equalsInt (n : ℤ) : Json F → Bool
  | .int m => m = n
  | .bool b => (if b then 1 else 0) = n
  | .float x => Library.equals x n
  | _ => false

/-- The value is `True` or `False`. -/
def isBool (b : Bool) : Option (Json F) → Bool
  | some (.bool c) => b = c
  | _ => false

variable (F)

def verify (bundle manifest : Bytes) : Option (Json F) :=
  match Library.loads manifest with
  | some (.obj fields) =>
    match fields.lookup "sha256", fields.lookup "bytes" with
    | some (.str digest), some bytes =>
      if isDigest digest ∧ bundle.take 22 = ageHeader ∧ Library.sha256 F bundle = digest ∧
          equalsInt bundle.length bytes ∧ isBool true (fields.lookup "decryption_verified") ∧
          isBool false (fields.lookup "private_identity_included") then some bytes
      else none
    | _, _ => none
  | _ => none

def finalName (bundle : Bytes) : String :=
  "dell-daily-" ++ Library.sha256 F bundle

def sameCopy (folder : Folder) (bundle manifest : Bytes) : Bool :=
  match folder.lookup bundleName, folder.lookup manifestName with
  | some bundle', some manifest' => bundle'.length = bundle.length ∧
      Library.sha256 F bundle' = Library.sha256 F bundle ∧ manifest'.length ≤ 16384 ∧
      manifest' = manifest
  | _, _ => false

/-- The bytes of the published ciphertexts, none if a directory has no ciphertext. -/
def usedBytes : List (String × Folder) → Option ℕ
  | [] => some 0
  | (_, folder) :: folders => do
    let bundle ← folder.lookup bundleName
    let rest ← usedBytes folders
    return bundle.length + rest

structure Receipt where
  sha256 : String
  bytes : Json F
  directory : String

/-- What is in the `try` of `receive`, after the directory of the call was made. -/
def receiveStaged (s : Stream) : ReceiverProg (Receipt F) := do
  let seen ← receiveEntries [] s.entries
  if ¬s.ends ∨ ¬(bundleName ∈ seen ∧ manifestName ∈ seen) then .fail ()
  else do
    let manifest : Bytes ← call (.read manifestName)
    let bundle : Bytes ← call (.read bundleName)
    match verify F bundle manifest with
    | none => .fail ()
    | some bytes => do
      let receipt : Receipt F := ⟨Library.sha256 F bundle, bytes, finalName F bundle⟩
      let existing : Option Folder ← call (.existing (finalName F bundle))
      match existing with
      | some folder => if sameCopy F folder bundle manifest then return receipt else .fail ()
      | none => do
        let folders : List (String × Folder) ← call .folders
        match usedBytes folders with
        | none => .fail ()
        | some used =>
          if quota < used + bundle.length then .fail ()
          else do
            call (.rename (finalName F bundle))
            return receipt

def receive (s : Stream) : ReceiverProg (Receipt F) := do
  call .makeRoot
  call .makeStage
  let r ← Prog.attempt (receiveStaged F s)
  call .removeStage
  Prog.ofExcept r

/-! ## What is claimed -/

/-- The directory of a published copy: one ciphertext of the digest in its name, and one manifest
that states the digest and the size. -/
def Sealed (name : String) (folder : Folder) : Prop :=
  ∃ bundle manifest bytes, folder.Perm [(bundleName, bundle), (manifestName, manifest)] ∧
    name = finalName F bundle ∧ verify F bundle manifest = some bytes

structure Kept (r : Root) : Prop where
  names : (r.published.map Prod.fst).Nodup
  copies : ∀ d ∈ r.published, Sealed F d.1 d.2
  bytes : ∃ used, usedBytes r.published = some used ∧ used ≤ quota

def Stream.member (s : Stream) (name : String) : Option Bytes :=
  (s.entries.find? fun e => e.name = name).map Entry.content

def Stored (s : Stream) (receipt : Receipt F) (r : Root) : Prop :=
  ∃ folder bundle manifest, (receipt.directory, folder) ∈ r.published ∧
    folder.Perm [(bundleName, bundle), (manifestName, manifest)] ∧
    s.member bundleName = some bundle ∧ s.member manifestName = some manifest

/-- Roots after calls that stopped anywhere. -/
inductive Called (r : Root) : Root → Prop where
  | refl : Called r r
  | call {r₁ r₂ : Root} (s : Stream) (h : Called r r₁) (hr : (receive F s).Reaches act r₁ r₂) :
      Called r r₂

/-- No call was made yet. -/
def empty : Root :=
  ⟨[], none⟩

/-- Nothing fails, and there is space enough. -/
def Well (x : ReceiverChoice) : Prop :=
  x.raises = false ∧ limit + 512 * 1024 * 1024 ≤ x.free

structure Receives (r : Root) (s : Stream) : Prop where
  appends : ∀ r', (receive F s).Reaches act r r' → r.published <+: r'.published
  stored : ∀ receipt r', (receive F s).Finishes act r (.ok receipt) r' → Stored F s receipt r'
  raised : ∀ e r', (receive F s).Finishes act r (.error e) r' → r'.published = r.published
  /-- The stream is accepted again at any later time, and nothing is added. -/
  again : ∀ receipt r' r'' x, (receive F s).Finishes act r (.ok receipt) r' → Called F r' r'' →
    Well x → ∃ t, (receive F s).exec act x r'' = (.ok receipt, t) ∧ t.published = r''.published

end library

end OpsReceiver
