import OpsControlPlane.Lib.JsonText

/-!
# The remote watch

`collect` asks the broker for one observation of each server, assesses what the observation printed,
and reports. `assess` walks a JSON value of any shape: an access raises as in Python, and only the
errors of `caught` make the observation invalid.

The values are those of the parser. The numbers of the requests and the times are left out, nothing
depends on them.
-/

namespace OpsRemoteWatch

open JsonText

inductive PyError where
  | valueError
  | keyError
  | typeError
  | indexError
  | attributeError
  | overflowError
  | recursionError
deriving DecidableEq

/-- `(ValueError, KeyError, TypeError, IndexError)`. -/
def PyError.caught : PyError → Bool
  | .valueError | .keyError | .typeError | .indexError => true
  | _ => false

class Library (F : Type) where
  /-- `json.loads`. It raises `ValueError`, and `RecursionError` where the nesting is too deep. -/
  loads : String → Except PyError (Json F)
  /-- `int` of a text, none if it raises `ValueError`. -/
  intOfText : String → Option ℤ
  /-- `int` of a float. Not a number raises `ValueError`, an infinity raises `OverflowError`. -/
  intOfFloat : F → Except PyError ℤ
  /-- Equality of a float and an integer, and of two floats. -/
  equals : F → ℤ → Bool
  same : F → F → Bool

/-! ## The servers -/

/-- The keys of `EXPECTED`. -/
inductive Resource where
  | edgeVps
  | prod
  | nas
  | gamebox
deriving DecidableEq

def Resource.name : Resource → String
  | .edgeVps => "edge-vps"
  | .prod => "prod"
  | .nas => "nas"
  | .gamebox => "gamebox"

def Resource.units : Resource → List String
  | .edgeVps => ["nginx.service", "ssh.service", "wg-quick@wg0.service", "wg-quick@wg1.service"]
  | .prod => ["docker.service", "ssh.service", "wg-quick@wg0.service"]
  | .nas => ["docker.service", "ssh.service", "wg-quick@wg0.service"]
  | .gamebox => ["ssh.service", "velocity.service", "minecraft.service",
      "minecraft-survie.service", "postgresql@17-main.service"]

def Resource.containers : Resource → List String
  | .edgeVps => []
  | .prod => ["dowze-api", "dowze-web", "supabase-db", "traefik", "prometheus", "grafana"]
  | .nas => ["nextcloud", "nextcloud-db", "nginx-proxy-manager",
      "mailcowdockerized-postfix-mailcow-1", "mailcowdockerized-dovecot-mailcow-1"]
  | .gamebox => []

def resources : List Resource :=
  [.edgeVps, .prod, .nas, .gamebox]

structure Result where
  returnCode : ℤ
  stdout : String
  (timedOut truncated : Bool)
deriving DecidableEq

variable {F : Type}

structure Action where
  (id missionId runbookId : String)
  (resource status : String)
  result : Option Result
deriving DecidableEq

/-! ## Accesses -/

/-- `v.get`, the fields. -/
def fieldsOf : Json F → Except PyError (List (String × Json F))
  | .obj fields => .ok fields
  | _ => .error .attributeError

def item (k : String) : Json F → Except PyError (Json F)
  | .obj fields =>
    match fields.lookup k with
    | some v => .ok v
    | none => .error .keyError
  | _ => .error .typeError

/-- What a loop over the value goes through. -/
def iterate : Json F → Except PyError (List (Json F))
  | .arr xs => .ok xs
  | .str s => .ok (s.toList.map fun c => .str (String.singleton c))
  | .obj fields => .ok (fields.map fun kv => .str kv.1)
  | _ => .error .typeError

def nth (i : ℕ) : Json F → Except PyError (Json F)
  | .arr xs =>
    match xs[i]? with
    | some v => .ok v
    | none => .error .indexError
  | .str s =>
    match s.toList[i]? with
    | some c => .ok (.str (String.singleton c))
    | none => .error .indexError
  | .obj _ => .error .keyError
  | _ => .error .typeError

/-- `v[1:]`, and what a loop over it goes through. -/
def rest : Json F → Except PyError (List (Json F))
  | .arr xs => .ok xs.tail
  | .str s => .ok (s.toList.tail.map fun c => .str (String.singleton c))
  | _ => .error .typeError

def hashable : Json F → Bool
  | .arr _ | .obj _ => false
  | _ => true

def isText (t : String) : Option (Json F) → Bool
  | some (.str s) => s = t
  | _ => false

section library

variable [Library F]

def sameKey : Json F → Json F → Bool
  | .null, .null => true
  | .str s, .str t => s = t
  | .float x, .float y => Library.same x y
  | .float x, .int n | .int n, .float x => Library.equals x n
  | .float x, .bool b | .bool b, .float x => Library.equals x (if b then 1 else 0)
  | .int n, .int m => n = m
  | .int n, .bool b | .bool b, .int n => n = if b then 1 else 0
  | .bool b, .bool c => b = c
  | _, _ => false

def toInt : Json F → Except PyError ℤ
  | .bool b => .ok (if b then 1 else 0)
  | .int n => .ok n
  | .float x => Library.intOfFloat x
  | .str s =>
    match Library.intOfText F s with
    | some n => .ok n
    | none => .error .valueError
  | _ => .error .typeError

/-- A dictionary with a key set. -/
def insertRow (k v : Json F) : List (Json F × Json F) → List (Json F × Json F)
  | [] => [(k, v)]
  | (k', v') :: states =>
    if sameKey k' k then (k', v) :: states else (k', v') :: insertRow k v states

/-- `row[0]` and `row[2]`, a key and its value. -/
def readRow (row : Json F) : Except PyError (Json F × Json F) := do
  let name ← nth 0 row
  let state ← nth 2 row
  if hashable name then return (name, state) else .error .typeError

def statesOf (rows : List (Json F × Json F)) : List (Json F × Json F) :=
  rows.foldl (fun states row => insertRow row.1 row.2 states) []

def stateOf (name : String) (states : List (Json F × Json F)) : Option (Json F) :=
  (states.find? fun row => sameKey row.1 (.str name)).map Prod.snd

/-! ## The assessment -/

def expectedProblems (kind wanted : String) (states : List (Json F × Json F)) :
    List String → Except PyError (List String)
  | [] => .ok []
  | name :: names =>
    if isText wanted (stateOf name states) then expectedProblems kind wanted states names
    else
      match (stateOf name states).getD (.str "missing") with
      | .str state => do
        let problems ← expectedProblems kind wanted states names
        return (kind ++ ":" ++ name ++ ":" ++ state) :: problems
      | _ => .error .typeError

def otherProblems (expected : List String) :
    List (Json F × Json F) → Except PyError (List String)
  | [] => .ok []
  | (.str name, state) :: states =>
    if isText "failed" (some state) ∧ name ∉ expected then do
      let problems ← otherProblems expected states
      return ("units:" ++ name ++ ":failed") :: problems
    else otherProblems expected states
  | (_, state) :: states =>
    if isText "failed" (some state) then .error .typeError else otherProblems expected states

def assessSection (kind wanted : String) (expected : List String) (metadata : Json F) :
    Except PyError (List String) :=
  if expected = [] then .ok []
  else do
    let fields ← item kind metadata >>= fieldsOf
    if ¬isText "observed" (fields.lookup "status") then return [kind ++ "_unavailable"]
    else do
      let rows ← item "rows" (.obj fields) >>= iterate
      let rows ← rows.mapM readRow
      let problems ← expectedProblems kind wanted (statesOf rows) expected
      let others ← (if kind = "units" then otherProblems expected (statesOf rows) else .ok [])
      return problems ++ others

/-- `available / size` is raised as too large: the quotient is no float. -/
def tooLarge (available size : ℤ) : Bool :=
  (2 ^ 1024 - 2 ^ 970) * size ≤ available

/-- `available / size < 0.10`: the quotient is not rounded to the float of 0.10 or to a larger
one. -/
def lowRatio (available size : ℤ) : Bool :=
  available * 2 ^ 57 < 14411518807585587 * size

/-- `size, used, available = map(int, row)`, checked. The fourth value is converted before it is too
many. -/
def readDisk (row : Json F) : Except PyError (ℤ × ℤ) := do
  let values ← iterate row
  let numbers ← (values.take 4).mapM toInt
  match numbers with
  | [size, _, available] =>
    if size ≤ 0 ∨ available < 0 then .error .valueError else return (size, available)
  | _ => .error .valueError

def diskProblems : List (Json F) → Except PyError (List String)
  | [] => .ok []
  | row :: rows => do
    let (size, available) ← readDisk row
    if available < 5 * 1024 * 1024 then return ["disk_low"]
    else if tooLarge available size then .error .overflowError
    else if lowRatio available size then return ["disk_low"]
    else diskProblems rows

/-- The problems of the filesystems, as they are listed after their header. -/
def assessDisk (metadata : Json F) : Except PyError (List String) := do
  let fields ← item "filesystems" metadata >>= fieldsOf
  if ¬isText "observed" (fields.lookup "status") then return ["disk_unavailable"]
  else do
    let rows ← item "rows" (.obj fields) >>= rest
    diskProblems rows

def assessOutput (F : Type) [Library F] (resource : Resource) (stdout : String) :
    Except PyError (List String) := do
  let observed ← Library.loads (F := F) stdout
  let fields ← fieldsOf observed
  if ¬isText resource.name (fields.lookup "resource") ∨
      ¬isText "observed" (fields.lookup "status") then return ["resource_unavailable"]
  else do
    let metadata ← item "metadata" (.obj fields)
    let units ← assessSection "units" "active" resource.units metadata
    let containers ← assessSection "containers" "running" resource.containers metadata
    let disk ← assessDisk metadata
    return units ++ containers ++ disk

def succeeded (action : Action) : Option Result :=
  action.result.filter fun result => action.status = "succeeded" ∧ result.returnCode = 0 ∧
    result.timedOut = false ∧ result.truncated = false

def assess (F : Type) [Library F] (resource : Resource) (action : Action) :
    Except PyError (List String) :=
  match succeeded action with
  | none => .ok ["observation_failed"]
  | some result =>
    match assessOutput F resource result.stdout with
    | .ok problems => .ok problems
    | .error e => if e.caught then .ok ["invalid_observation"] else .error e

/-! ## The report -/

def mission : String :=
  "b106ed2d-f46f-4b0c-9f7a-d0f594082526"

def runbook : String :=
  "inventory.remote-services.v1"

structure Broker where
  missionStatus : String
  runbooks : List (String × String)
  actions : Resource → Action

/-- What `collect` raises. -/
inductive WatchError where
  | value (message : String)
  | refused (operation : String)
  | python (e : PyError)
deriving DecidableEq

structure Entry where
  actionId : String
  problems : List String
deriving DecidableEq

def Entry.healthy (e : Entry) : Bool :=
  e.problems = []

structure Report where
  resources : List (String × Entry)
  healthy : Bool
deriving DecidableEq

/-- `content` of the record of an assessment. -/
def recordText (resource : Resource) (problems : List String) : String :=
  "Surveillance " ++ resource.name ++ " : " ++
    if problems = [] then "services attendus actifs, espace disque suffisant"
    else "; ".intercalate problems

/-- `_text` of the broker, for the content of a record. -/
def recordAccepted (content : String) : Bool :=
  '\x00' ∉ content.toList ∧ 1 ≤ content.length ∧ content.length ≤ 8000

def collectOne (F : Type) [Library F] (broker : Broker) (resource : Resource) :
    Except WatchError (String × Entry) :=
  let action := broker.actions resource
  if action.missionId ≠ mission ∨ action.runbookId ≠ runbook ∨ action.resource ≠ resource.name then
    .error (.value "Mismatched broker action")
  else
    match assess F resource action with
    | .error e => .error (.python e)
    | .ok problems =>
      if recordAccepted (recordText resource problems) then
        .ok (resource.name, ⟨action.id, problems⟩)
      else .error (.refused "add_mission_record")

def collect (F : Type) [Library F] (broker : Broker) : Except WatchError Report :=
  if ¬(broker.missionStatus = "open" ∨ broker.missionStatus = "active") then
    .error (.value "Watch mission is closed")
  else if ¬(broker.runbooks.any fun book => book.1 = runbook ∧ book.2 = "A") then
    .error (.value "Observation capability unavailable")
  else do
    let entries ← resources.mapM (collectOne F broker)
    return ⟨entries, entries.all fun entry => entry.2.healthy⟩

/-! ## What is claimed -/

def Listed (metadata : Json F) (kind : String) (rows : List (Json F × Json F)) : Prop :=
  ∃ fields listed values, item kind metadata = .ok (.obj fields) ∧
    isText "observed" (fields.lookup "status") = true ∧ fields.lookup "rows" = some listed ∧
    iterate listed = .ok values ∧ values.mapM readRow = .ok rows

def Filesystems (metadata : Json F) (rows : List (Json F)) : Prop :=
  ∃ fields listed, item "filesystems" metadata = .ok (.obj fields) ∧
    isText "observed" (fields.lookup "status") = true ∧ fields.lookup "rows" = some listed ∧
    rest listed = .ok rows

/-- The filesystem is above both thresholds. -/
def Roomy (row : Json F) : Prop :=
  ∃ size available, readDisk row = .ok (size, available) ∧ 5 * 1024 * 1024 ≤ available ∧
    tooLarge available size = false ∧ lowRatio available size = false

def Up (wanted : String) (expected : List String) (row : Json F × Json F) : Prop :=
  ∀ name ∈ expected, row.1 = .str name → row.2 = .str wanted

def NotFailed (expected : List String) (row : Json F × Json F) : Prop :=
  row.2 = .str "failed" → ∃ name ∈ expected, row.1 = .str name

def Observed (resource : Resource) (stdout : String) (metadata : Json F) : Prop :=
  ∃ fields, Library.loads stdout = .ok (.obj fields) ∧
    isText resource.name (fields.lookup "resource") = true ∧
    isText "observed" (fields.lookup "status") = true ∧ fields.lookup "metadata" = some metadata

variable (F)

def Sound (resource : Resource) (action : Action) : Prop :=
  ∃ result, ∃ metadata : Json F, succeeded action = some result ∧
    Observed resource result.stdout metadata ∧
    (∃ rows, Listed metadata "units" rows ∧
      (∀ name ∈ resource.units, ∃ row ∈ rows, row.1 = .str name) ∧
      ∀ row ∈ rows, Up "active" resource.units row ∧ NotFailed resource.units row) ∧
    (resource.containers = [] ∨ ∃ rows, Listed metadata "containers" rows ∧
      (∀ name ∈ resource.containers, ∃ row ∈ rows, row.1 = .str name) ∧
      ∀ row ∈ rows, Up "running" resource.containers row) ∧
    ∃ rows, Filesystems metadata rows ∧ ∀ row ∈ rows, Roomy row

/-- The mission is open, the observations are authorized, and the broker answers the actions that
were requested. -/
structure Ready (broker : Broker) : Prop where
  active : broker.missionStatus = "open" ∨ broker.missionStatus = "active"
  authorized : (runbook, "A") ∈ broker.runbooks
  requested : ∀ resource, (broker.actions resource).missionId = mission ∧
    (broker.actions resource).runbookId = runbook ∧
    (broker.actions resource).resource = resource.name

/-! ## When it holds -/

variable {F}

def ObjectAt (kind : String) (metadata : Json F) : Prop :=
  ∀ v, item kind metadata = .ok v → ∃ fields, v = .obj fields

def ReadToEnd (kind wanted : String) (expected : List String) (metadata : Json F) : Prop :=
  ∃ problems, assessSection kind wanted expected metadata = .ok problems

/-- No value that is converted is an infinity, and the quotient is a float. -/
def Finite (row : Json F) : Prop :=
  (∀ values before x after, iterate row = .ok values → values.take 4 = before ++ x :: after →
    (∀ v ∈ before, ∃ n, toInt v = .ok n) → ∀ e, toInt x = .error e → e.caught = true) ∧
  ∀ size available, readDisk row = .ok (size, available) → 5 * 1024 * 1024 ≤ available →
    tooLarge available size = false

/-- The filesystems are an object, and up to the first one that is not above the thresholds their
numbers are finite. -/
def DiskOrderly (metadata : Json F) : Prop :=
  ObjectAt "filesystems" metadata ∧ ∀ rows, Filesystems metadata rows →
    ∀ before row after, rows = before ++ row :: after → (∀ b ∈ before, Roomy b) → Finite row

variable (F)

/-- The output is not nested too deep, it is an object if it is JSON, and each section that is
reached is an object. -/
def Orderly (resource : Resource) (stdout : String) : Prop :=
  (∀ e, Library.loads (F := F) stdout = .error e → e.caught = true) ∧
  (∀ observed, Library.loads (F := F) stdout = .ok observed → ∃ fields, observed = .obj fields) ∧
  ∀ metadata : Json F, Observed resource stdout metadata →
    (resource.units ≠ [] → ObjectAt "units" metadata) ∧
    (ReadToEnd "units" "active" resource.units metadata →
      (resource.containers ≠ [] → ObjectAt "containers" metadata) ∧
      (ReadToEnd "containers" "running" resource.containers metadata → DiskOrderly metadata))

variable {F}

def textOf : Json F → Option String
  | .str s => some s
  | _ => none

/-- A later row of the section has the same name, or neither has a text for its name. -/
def Hidden (row : Json F × Json F) (rows : List (Json F × Json F)) : Prop :=
  ∃ before after, rows = before ++ row :: after ∧ ∃ later ∈ after, textOf later.1 = textOf row.1

def LastUp (wanted : String) (expected : List String) (rows : List (Json F × Json F)) : Prop :=
  ∀ name ∈ expected, isText wanted (stateOf name (statesOf rows)) = true

def LastNotFailed (expected : List String) (rows : List (Json F × Json F)) : Prop :=
  ∀ row ∈ statesOf rows, NotFailed expected row

/-- The observation has no problem, as far as the last rows tell. -/
structure Passing (resource : Resource) (stdout : String)
    (units containers : List (Json F × Json F)) : Prop where
  observed : ∃ metadata : Json F, Observed resource stdout metadata ∧
    Listed metadata "units" units ∧
    (resource.containers = [] ∨ Listed metadata "containers" containers) ∧
    ∃ rows, Filesystems metadata rows ∧ ∀ row ∈ rows, Roomy row
  units : LastUp "active" resource.units units ∧ LastNotFailed resource.units units
  containers : LastUp "running" resource.containers containers

variable (F)

/-- Where an observation has no problem as far as the last rows tell, neither has a row that is
hidden by a later one. -/
def Unmasked (resource : Resource) (stdout : String) : Prop :=
  ∀ units containers : List (Json F × Json F), Passing resource stdout units containers →
    (∀ row ∈ units, Hidden row units → Up "active" resource.units row ∧
      NotFailed resource.units row) ∧
    (resource.containers ≠ [] → ∀ row ∈ containers, Hidden row containers →
      Up "running" resource.containers row)

end library

end OpsRemoteWatch
