import Mathlib.Data.List.Sort
import Mathlib.Data.String.Basic
import Mathlib.Order.Lattice
import Mathlib.Data.List.Lex

/-!
# The digest of a source tree

`iterSourcePaths` walks the roots of a release and yields its files, and `sourceTreeDigest` hashes
them in one text, a line for each. A name is a list of code points: Python reads a byte of a
name that is no UTF-8 as a surrogate, which no text can be encoded with.
-/

namespace OpsSourceTree

/-- A text, in code points. -/
abbrev Str : Type :=
  List ℕ

def str (s : String) : Str :=
  s.toList.map Char.toNat

abbrev Path : Type :=
  List Str

/-! ## Trees -/

/-- What a name of a directory stands for. -/
inductive Node where
  | file (executable : Bool) (content : List UInt8)
  | dir (children : List (Str × Node))
  | link (target : Node)
  | broken
  | special

def ValidName (name : Str) : Prop :=
  name ≠ [] ∧ 47 ∉ name ∧ 0 ∉ name ∧ name ≠ str "." ∧ name ≠ str ".."

mutual
def Node.Wf : Node → Prop
  | .file _ _ => True
  | .dir children => (children.map Prod.fst).Nodup ∧ WfAll children
  | .link target => target.Wf
  | .broken => True
  | .special => True

def WfAll : List (Str × Node) → Prop
  | [] => True
  | (name, n) :: rest => ValidName name ∧ n.Wf ∧ WfAll rest
end

/-- A directory with a release in it, in the order of its listings. -/
structure Source where
  children : List (Str × Node)
  wf : (Node.dir children).Wf

def Node.follow : Node → Node
  | .link target => target.follow
  | .file executable content => .file executable content
  | .dir children => .dir children
  | .broken => .broken
  | .special => .special

def child? (name : Str) (children : List (Str × Node)) : Option Node :=
  (children.find? fun child => child.1 = name).map Prod.snd

/-- `os.lstat`. Only the last part of the path is not followed. -/
def lstat : Node → Path → Option Node
  | n, [] => some n
  | n, name :: path => match n.follow with
    | .dir children => (child? name children).bind fun m => lstat m path
    | _ => none

/-! ## Names -/

structure DeploymentError where
  code : String
  message : Str
deriving DecidableEq

inductive Fault where
  | deployment (error : DeploymentError)
  | unicodeEncode
deriving DecidableEq

def sourceInvalid (message : Str) : Fault :=
  .deployment ⟨"source_invalid", message⟩

/-- `CONTROL_RE.search`. -/
def Control (s : Str) : Prop :=
  ∃ c ∈ s, c < 32 ∨ c = 127

instance (s : Str) : Decidable (Control s) :=
  inferInstanceAs (Decidable (∃ c ∈ s, c < 32 ∨ c = 127))

def asPosix (path : Path) : Str :=
  [47].intercalate path

def relativePath (value : Str) (location : Str) : Except Fault Path :=
  let parts := (value.splitOn 47).filter fun part => part ≠ [] ∧ part ≠ str "."
  if Control value then .error (.deployment ⟨"manifest_invalid", location ++ str " is invalid"⟩)
  else if value.head? = some 47 ∨ parts = [] ∨ str ".." ∈ parts then
    .error (.deployment ⟨"manifest_invalid", location ++ str " must be relative"⟩)
  else .ok parts

def excludedDirectoryNames : List Str :=
  [str ".git", str ".mypy_cache", str ".pytest_cache", str ".ruff_cache", str ".venv",
    str "__pycache__", str "artifacts", str "build", str "dist", str "node_modules", str "target"]

def excludedFileSuffixes : List Str :=
  [str ".pyc", str ".pyo", str ".log", str ".db", str ".sqlite", str ".sqlite3"]

def name (path : Path) : Str :=
  path.getLast?.getD []

def Excluded (path : Path) : Prop :=
  (∃ part ∈ path, part ∈ excludedDirectoryNames) ∨
    ∃ suffix ∈ excludedFileSuffixes, suffix <:+ name path

instance (path : Path) : Decidable (Excluded path) := by
  unfold Excluded
  infer_instance

/-! ## The walk -/

structure File where
  path : Path
  executable : Bool
  content : List UInt8
deriving DecidableEq

/-- A part of the walk: from what was yielded before to what is yielded after it. A fault keeps
what was yielded until it. -/
abbrev Walk : Type :=
  List File → Except (List File × Fault) (List File)

/-- A name of a directory, what it stands for and its walk. -/
structure Entry where
  name : Str
  node : Node
  walk : Walk

def Entry.isDirectory (e : Entry) : Bool :=
  match e.node.follow with
  | .dir _ => true
  | _ => false

def keptDirectories (dir : Path) : List Entry → Except Fault (List Entry)
  | [] => .ok []
  | e :: es =>
    let path := dir ++ [e.name]
    if Control (asPosix path) then
      .error (sourceInvalid (str "release source path contains control characters"))
    else match e.node with
    | .link _ => .error (sourceInvalid (str "release source contains a symlink: " ++ asPosix path))
    | .dir _ => do
      let kept ← keptDirectories dir es
      return if Excluded path then kept else e :: kept
    | _ => .error (sourceInvalid (str "release source contains a special entry: " ++ asPosix path))

def yieldFiles (dir : Path) : List Entry → Walk
  | [], seen => .ok seen
  | e :: es, seen =>
    let path := dir ++ [e.name]
    if Control (asPosix path) then
      .error (seen, sourceInvalid (str "release source path contains control characters"))
    else if Excluded path then yieldFiles dir es seen
    else match e.node with
    | .file executable content =>
      if path ∈ seen.map File.path then yieldFiles dir es seen
      else yieldFiles dir es (seen ++ [⟨path, executable, content⟩])
    | _ =>
      .error (seen, sourceInvalid (str "release source contains an unsafe file: " ++ asPosix path))

def walkEntries (dir : Path) (entries : List Entry) : Walk := fun seen =>
  let sorted := entries.insertionSort fun e e' => e.name ≤ e'.name
  match keptDirectories dir (sorted.filter fun e => e.isDirectory) with
  | .error fault => .error (seen, fault)
  | .ok kept => do
    let seen ← yieldFiles dir (sorted.filter fun e => !e.isDirectory) seen
    kept.foldlM (fun seen e => e.walk seen) seen

mutual
def walk : Node → Path → Walk
  | .dir children, dir => walkEntries dir (entries children dir)
  | .file _ _, _ => .ok
  | .link _, _ => .ok
  | .broken, _ => .ok
  | .special, _ => .ok

def entries : List (Str × Node) → Path → List Entry
  | [], _ => []
  | (name, n) :: rest, dir => ⟨name, n, walk n (dir ++ [name])⟩ :: entries rest dir
end

def walkRoot (source : Source) (raw : Str) : Walk := fun seen =>
  match relativePath raw (str "source.roots") with
  | .error fault => .error (seen, fault)
  | .ok root => match lstat (.dir source.children) root with
    | none => .error (seen, sourceInvalid (str "release source is missing: " ++ asPosix root))
    | some (.link _) =>
      .error (seen, sourceInvalid (str "release source is symlinked: " ++ asPosix root))
    | some .broken =>
      .error (seen, sourceInvalid (str "release source is symlinked: " ++ asPosix root))
    | some (.file executable content) =>
      if root ∉ seen.map File.path ∧ ¬Excluded root then
        if Control (asPosix root) then
          .error (seen, sourceInvalid (str "release source path contains control characters"))
        else .ok (seen ++ [⟨root, executable, content⟩])
      else .ok seen
    | some .special =>
      .error (seen, sourceInvalid (str "release source has unsupported type: " ++ asPosix root))
    | some (.dir children) => walk (.dir children) root seen

def iterSourcePaths (source : Source) (roots : List Str) :
    Except (List File × Fault) (List File) := do
  let seen ← (roots.insertionSort fun r r' => r ≤ r').foldlM
    (fun seen raw => walkRoot source raw seen) []
  if seen = [] then throw (seen, sourceInvalid (str "release source tree is empty"))
  else return seen

/-! ## The digest -/

def sourceInstallerEntrypoints : List Str :=
  [str "scripts/install-broker.sh", str "scripts/install-orchestrator.sh",
    str "scripts/install-hermes.sh", str "scripts/install-zulip-bridge.sh",
    str "deploy/zulip-local/bin/install.sh"]

def maxSourceFileBytes : ℕ :=
  256 * 1024 * 1024

def maxSourceTreeBytes : ℕ :=
  2 * 1024 * 1024 * 1024

structure Digested where
  relative : Path
  (mode size : ℕ)
  digest : Str

variable (sha256 : List UInt8 → Str)

def normalizedFileMode (executable : Bool) : ℕ :=
  if executable then 0o755 else 0o644

def File.digested (f : File) : Digested :=
  ⟨f.path, normalizedFileMode f.executable, f.content.length, sha256 f.content⟩

def digestFiles : List File → ℕ → Except Fault (List Digested)
  | [], _ => .ok []
  | f :: fs, total =>
    if maxSourceFileBytes < f.content.length then
      .error (sourceInvalid (str "release input is not a bounded regular file: " ++ name f.path))
    else if asPosix f.path ∈ sourceInstallerEntrypoints ∧ f.executable = false then
      .error (sourceInvalid (str "source installer is not executable: " ++ asPosix f.path))
    else if maxSourceTreeBytes < total + f.content.length then
      .error (sourceInvalid (str "release source tree exceeds its bound"))
    else do
      let rest ← digestFiles fs (total + f.content.length)
      return f.digested sha256 :: rest

def digits (base n : ℕ) : Str :=
  (Nat.toDigits base n).map Char.toNat

/-- A line of the text that is hashed, without its end. -/
def Digested.line (d : Digested) : Str :=
  asPosix d.relative ++ 0 :: (digits 8 d.mode ++ 0 :: (digits 10 d.size ++ 0 :: d.digest))

/-- The character of a code point that is no surrogate. -/
def char? (c : ℕ) : Option Char :=
  if h : c.isValidChar then some (Char.ofNatAux c h) else none

/-- `line.encode("utf-8")`. -/
def encode (s : Str) : Except Fault (List UInt8) :=
  match s.mapM char? with
  | none => .error .unicodeEncode
  | some cs => .ok (cs.flatMap String.utf8EncodeChar)

def canonicalTreeHash (ds : List Digested) : Except Fault Str := do
  let sorted := ds.insertionSort fun d d' => asPosix d.relative ≤ asPosix d'.relative
  let bytes ← encode (sorted.flatMap fun d => d.line ++ [10])
  return sha256 bytes

def sourceTreeDigest (source : Source) (roots : List Str) : Except Fault Str :=
  match iterSourcePaths source roots with
  -- what was yielded before the fault is read first
  | .error (seen, fault) => do
    let _ ← digestFiles sha256 seen 0
    throw fault
  | .ok seen => do
    let ds ← digestFiles sha256 seen 0
    canonicalTreeHash sha256 ds

end OpsSourceTree
