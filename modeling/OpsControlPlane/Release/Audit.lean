import OpsControlPlane.Lib.SpacedJson
import OpsControlPlane.Desktop.Credentials

/-!
# The audit log of releases

`readEvents` checks the log of a target line by line, and `nextRecord` is the line that an append
adds to what it has read. `step` is a system of processes: each applies or rolls back releases
under the lock of a resource, appends events, and may be killed between any two bytes.

No path is a symbolic link.
-/

namespace OpsAudit

open Text JsonText
open OpsKeys (Bytes utf8 decodeUtf8 isspace)

/-- `SHA256.fullmatch`. -/
def isDigest (s : String) : Bool :=
  (toChars s).length = 64 &&
    (toChars s).all fun c => '0' ≤ c && c ≤ '9' || 'a' ≤ c && c ≤ 'f'

/-- The libraries that the script rests on. -/
class Host where
  Flt : Type
  [text : FloatText Flt]
  [lawful : LawfulFloatText Flt]
  sha256 : Bytes → String
  isDigest_sha256 : ∀ value, isDigest (sha256 value) = true

export Host (Flt)

attribute [instance] Host.text Host.lawful

variable [Host]

abbrev Dict : Type :=
  List (String × Json Flt)

/-! ## Files -/

abbrev Path : Type :=
  List String

inductive Node where
  | missing
  | file (content : Bytes)
  | directory

def Node.isFile : Node → Bool
  | file _ => true
  | _ => false

def Node.content : Node → Bytes
  | file content => content
  | _ => []

/-- `path.mkdir(parents=True, exist_ok=True)`, which raises if a file is in the way. -/
def mkdir (files : Path → Node) (path : Path) : Option (Path → Node) :=
  if path.inits.any fun q => (files q).isFile then none
  else some fun q => if q <+: path then .directory else files q

/-! ## Reading -/

inductive LogError where
  | unsafeAuditLog
  | auditChainInvalid
  | invalidSchema
  | notUtf8
deriving DecidableEq

def canonicalJson (value : Json Flt) : Bytes :=
  utf8 (canonical value)

/-- The hash that the first event refers to. -/
def genesis : String :=
  ofChars (List.replicate 64 '0')

/-- The newlines of a file in text mode. -/
def universalNewlines : List Char → List Char
  | '\r' :: '\n' :: s => '\n' :: universalNewlines s
  | '\r' :: s => '\n' :: universalNewlines s
  | c :: s => c :: universalNewlines s
  | [] => []

/-- The dictionary without its hash. -/
def unsigned (event : Dict) : Dict :=
  event.filter fun kv => kv.1 ≠ "event_hash"

/-- The hash of an event at its place in the chain. -/
def checkEvent (previous : String) (event : Dict) : Except LogError String :=
  match event.lookup "previous_hash", event.lookup "event_hash" with
  | some (.str stored), some (.str hash) =>
    if stored = previous ∧ isDigest hash then
      if Host.sha256 (canonicalJson (.obj (unsigned event))) = hash then .ok hash
      else .error .auditChainInvalid
    else .error .auditChainInvalid
  | _, _ => .error .auditChainInvalid

def readLines (events : List Dict) (previous : String) :
    List (List Char) → Except LogError (List Dict)
  | [] => .ok events
  | line :: lines =>
    if line.all isspace then readLines events previous lines
    else if 100000 ≤ events.length then .error .unsafeAuditLog
    else
      match loads (F := Flt) (ofChars line) with
      | none => .error .auditChainInvalid
      | some (.obj event) =>
        match checkEvent previous event with
        | .ok hash => readLines (events ++ [event]) hash lines
        | .error e => .error e
      | some _ => .error .invalidSchema

def readEvents : Node → Except LogError (List Dict)
  | .missing => .ok []
  | .directory => .error .unsafeAuditLog
  | .file log =>
    if 64 * 1024 * 1024 < log.length then .error .unsafeAuditLog
    else
      match decodeUtf8 log with
      | none => .error .notUtf8
      | some text => readLines [] genesis ((universalNewlines text.toList).splitOn '\n')

/-! ## Appending -/

def ownKeys : List String :=
  ["schema_version", "timestamp", "previous_hash", "event_hash"]

/-- What is appended: a dictionary without these keys. -/
structure AuditEvent where
  fields : Dict
  wf : Wf (.obj fields)
  foreign : ∀ k ∈ keys fields, k ∉ ownKeys

def payload (timestamp previous : String) (event : AuditEvent) : Dict :=
  ("schema_version", .int 1) :: ("timestamp", .str timestamp) ::
    ("previous_hash", .str previous) :: event.fields

def record (timestamp previous : String) (event : AuditEvent) : Dict :=
  payload timestamp previous event ++
    [("event_hash", .str (Host.sha256 (canonicalJson (.obj (payload timestamp previous event)))))]

/-- `existing[-1]["event_hash"]`, or the genesis hash. -/
def lastHash (existing : List Dict) : String :=
  match existing.getLast? with
  | some event =>
    match event.lookup "event_hash" with
    | some (.str hash) => hash
    | _ => genesis
  | none => genesis

/-- What `append_event` adds to the log. -/
def nextRecord (log : Node) (timestamp : String) (event : AuditEvent) : Except LogError Dict :=
  match readEvents log with
  | .ok existing => .ok (record timestamp (lastHash existing) event)
  | .error e => .error e

def line (record : Dict) : Bytes :=
  utf8 (ofChars (dumpsSorted (.obj record) ++ ['\n']))

/-! ## Targets and their locks -/

structure ReleaseTarget where
  (id resourceId : String)
  (auditEventsPath lockRoot : Path)
deriving DecidableEq

/-- The file that `resource_lock` locks. -/
def ReleaseTarget.lockPath (target : ReleaseTarget) : Path :=
  target.lockRoot ++ [Host.sha256 (utf8 target.resourceId) ++ ".lock"]

/-- The paths that are too broad for `validate_absolute_path`. -/
def broadPaths : List Path :=
  [[], ["home"], ["etc"], ["var"], ["usr"]]

/-- A registry that `load_release_targets` accepts. -/
structure Registry where
  targets : List ReleaseTarget
  narrow : ∀ target ∈ targets,
    target.auditEventsPath ∉ broadPaths ∧ target.lockRoot ∉ broadPaths
  nodup : (targets.map ReleaseTarget.id).Nodup
  distinct : ∀ target ∈ targets, target.auditEventsPath ≠ target.lockRoot

/-! ## Processes -/

/-- Where a process is: outside of a call, under the lock of a target, or in an append with the
bytes that are left to be written. -/
inductive Phase where
  | idle
  | locked (target : ReleaseTarget)
  | appending (target : ReleaseTarget) (rest : Bytes) (record : Dict)

def Phase.target : Phase → Option ReleaseTarget
  | idle => none
  | locked target => some target
  | appending target _ _ => some target

/-- The files, the locks and the processes. The last three fields tell of the run: the records
that were written to a log to their last byte, those whose append returned, and whether an append
was refused. -/
structure State where
  files : Path → Node
  locks : Path → Option ℕ
  procs : ℕ → Phase
  (written returned : Path → List Dict)
  refused : Bool

/-- A step of the process `p`. -/
inductive Move where
  /-- `apply_release` or `apply_rollback` asks for the lock. Its holder writes who it is to the
  file of the lock. -/
  | call (p : ℕ) (target : ReleaseTarget) (holder : Bytes)
  /-- An append reads the log, and opens it. -/
  | append (p : ℕ) (timestamp : String) (event : AuditEvent)
  | write (p n : ℕ)
  | finish (p : ℕ)
  | leave (p : ℕ)
  | kill (p : ℕ)

/-- The state without the process: its locks are free. -/
def State.drop (s : State) (p : ℕ) : State :=
  { s with
    procs := Function.update s.procs p .idle
    locks := fun path => if s.locks path = some p then none else s.locks path }

def step (registry : Registry) (s : State) : Move → Option State
  | .call p target holder =>
    match s.procs p with
    | .idle =>
      if target ∈ registry.targets then
        match mkdir s.files target.lockRoot with
        | none => some s
        | some files =>
          match files target.lockPath with
          | .directory => some { s with files := files }
          | _ =>
            -- `resource_locked`
            if (s.locks target.lockPath).isSome then some { s with files := files }
            else some { s with
              files := Function.update files target.lockPath (.file holder)
              locks := Function.update s.locks target.lockPath (some p)
              procs := Function.update s.procs p (.locked target) }
      else none
    | _ => none
  | .append p timestamp event =>
    match s.procs p with
    | .locked target =>
      match mkdir s.files target.auditEventsPath.dropLast with
      | none => some { s with refused := true }
      | some files =>
        match nextRecord (files target.auditEventsPath) timestamp event with
        | .ok record =>
          some { s with
            files := Function.update files target.auditEventsPath
              (.file (files target.auditEventsPath).content)
            procs := Function.update s.procs p (.appending target (line record) record) }
        | .error _ => some { s with files := files, refused := true }
    | _ => none
  | .write p n =>
    match s.procs p with
    | .appending target rest record =>
      if rest = [] ∨ n = 0 then none
      else some { s with
        files := Function.update s.files target.auditEventsPath
          (.file ((s.files target.auditEventsPath).content ++ rest.take n))
        procs := Function.update s.procs p (.appending target (rest.drop n) record)
        written := if rest.drop n = [] then
            Function.update s.written target.auditEventsPath
              (s.written target.auditEventsPath ++ [record])
          else s.written }
    | _ => none
  | .finish p =>
    match s.procs p with
    | .appending target [] record =>
      some { s with
        procs := Function.update s.procs p (.locked target)
        returned := Function.update s.returned target.auditEventsPath
          (s.returned target.auditEventsPath ++ [record]) }
    | _ => none
  | .leave p =>
    match s.procs p with
    | .locked _ => some (s.drop p)
    | _ => none
  | .kill p => some (s.drop p)

def run (registry : Registry) (s : State) : List Move → Option State
  | [] => some s
  | m :: moves => (step registry s m).bind fun t => run registry t moves

/-- Before the first call. -/
def start : State where
  files := fun _ => .missing
  locks := fun _ => none
  procs := fun _ => .idle
  written := fun _ => []
  returned := fun _ => []
  refused := false

/-- No log is the file of the lock of the target or contains it, that file contains no log, and
the log of the target is in no other one. -/
def Apart (registry : Registry) (target : ReleaseTarget) : Prop :=
  ∀ other ∈ registry.targets, ¬ other.auditEventsPath <+: target.lockPath ∧
    ¬ target.lockPath <+: other.auditEventsPath ∧
    (other.auditEventsPath <+: target.auditEventsPath →
      other.auditEventsPath = target.auditEventsPath)

/-- The target is apart from all logs, and no other process is under another lock with the same
log; an append is written at once, and the log has room for it. -/
def Undisturbed (registry : Registry) (s : State) : Move → Prop
  | .call _ target _ =>
    Apart registry target ∧
    ∀ q other, (s.procs q).target = some other →
      other.auditEventsPath = target.auditEventsPath → other.lockPath = target.lockPath
  | .write p n =>
    ∀ target rest record, s.procs p = .appending target rest record →
      rest.length ≤ n ∧ (s.written target.auditEventsPath).length < 100000 ∧
        (s.files target.auditEventsPath).content.length + rest.length ≤ 64 * 1024 * 1024
  | _ => True

/-- Every step of the run is undisturbed. -/
def AllUndisturbed (registry : Registry) : State → List Move → Prop
  | _, [] => True
  | s, m :: moves => Undisturbed registry s m ∧
      ∀ t, step registry s m = some t → AllUndisturbed registry t moves

end OpsAudit
