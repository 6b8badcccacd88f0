import OpsControlPlane.Lib.Served

/-!
# The switch of execution modes

`main` is a command of `ops-execution-mode`. The commands write the mode file and the configuration
of the native worker, and ask `systemctl` to start and stop the model service and to restart the
worker, which keeps what it read of the configuration when it started. They run one at a time, under
a lock.

The machine is what they change, and `systemctl` may fail after it did what it was asked. What the
configuration says beside `generation_enabled` is left out, nobody here reads it.
-/

namespace OpsMode

open Calls

inductive Mode where
  | cli
  | api
  | hybrid
  | other
deriving DecidableEq

inductive Systemctl where
  /-- `start ops-native-secrets.service`. -/
  | startSecrets
  /-- `enable --now ops-native-model.service`. -/
  | enableModel
  /-- `disable --now ops-native-model.service`. -/
  | disableModel
  /-- `stop ops-native-model.service`. -/
  | stopModel
  /-- `is-active --quiet ops-native-model.service`. -/
  | isActive
  /-- `restart ops-native.service`. -/
  | restartWorker
deriving DecidableEq

/-- The mode file, the model service and the native worker, with the `generation_enabled` of its
configuration and the one that it read. None is a file that says nothing. -/
structure Machine where
  mode : Option Mode
  model : Bool
  worker : Served (Option Bool)
deriving DecidableEq

def Systemctl.apply : Systemctl → Machine → Machine
  | .enableModel, m => { m with model := true }
  | .disableModel, m => { m with model := false }
  | .stopModel, m => { m with model := false }
  | .restartWorker, m => { m with worker := m.worker.restart }
  | _, m => m

def Machine.current (m : Machine) : Mode :=
  m.mode.getD .cli

/-- `api_allowed`, which the worker asks each time. -/
def Machine.apiAllowed (m : Machine) : Bool :=
  m.mode = some .api ∨ m.mode = some .hybrid

def Machine.generates (m : Machine) : Bool :=
  m.worker.loaded = some true ∧ m.apiAllowed

inductive ModeOp where
  | probe
  | writeAccounts (codex claude : Bool)
  | systemctl (c : Systemctl)
  /-- Every key is in a file that is not empty. -/
  | keysReady
  /-- `config.get('generation_enabled')`. -/
  | readConfig
  | current
  | writeMode (mode : Mode)
  /-- The configuration with another `generation_enabled`. -/
  | writeConfig (generation : Bool)
  /-- `ops_native.budget_status`. -/
  | budgets
  /-- Whether a terminal session is active. -/
  | scopes
  | log (mode : Mode)
  | sleep
  | memoryCapabilities
deriving DecidableEq

abbrev ModeOp.Reply : ModeOp → Type
  | .probe => Bool × Bool
  | .systemctl _ => Bool
  | .keysReady => Bool
  | .readConfig => Option Bool
  | .current => Mode
  | .scopes => Bool
  | _ => Unit

/-- The operations of the commands. An operation may raise. -/
abbrev modeInterface : Interface :=
  ⟨ModeOp, fun o => Except Unit o.Reply⟩

abbrev ModeProg (α : Type) : Type :=
  Prog modeInterface Unit α

/-- Ask an operation, and raise as it raises. -/
def call (o : ModeOp) : ModeProg o.Reply := do
  let r : Except Unit o.Reply ← Prog.perform (I := modeInterface) o
  Prog.ofExcept r

/-- What the environment chooses at an operation. -/
structure ModeChoice where
  raises : Bool
  /-- It has its effect although it fails. -/
  took : Bool
  answer : Bool
  accounts : Bool × Bool

def ModeOp.apply : ModeOp → Machine → Machine
  | .systemctl c, m => c.apply m
  | .writeMode mode, m => { m with mode := some mode }
  | .writeConfig generation, m => { m with worker := m.worker.write (some generation) }
  | _, m => m

/-- The answer of an operation that does not raise, and the machine after it. -/
def ModeOp.run : (o : ModeOp) → ModeChoice → Machine → o.Reply × Machine
  | .probe, x, m => (x.accounts, m)
  | .writeAccounts _ _, _, m => ((), m)
  | .systemctl c, x, m => (x.answer, if x.answer ∨ x.took then c.apply m else m)
  | .keysReady, x, m => (x.answer, m)
  | .readConfig, _, m => (m.worker.disk, m)
  | .current, _, m => (m.current, m)
  | .writeMode mode, _, m => ((), (ModeOp.writeMode mode).apply m)
  | .writeConfig generation, _, m => ((), (ModeOp.writeConfig generation).apply m)
  | .budgets, _, m => ((), m)
  | .scopes, x, m => (x.answer, m)
  | .log _, _, m => ((), m)
  | .sleep, _, m => ((), m)
  | .memoryCapabilities, _, m => ((), m)

def act (o : ModeOp) (x : ModeChoice) (m : Machine) : Except Unit o.Reply × Machine :=
  if x.raises then (.error (), if x.took then o.apply m else m)
  else (.ok (o.run x m).1, (o.run x m).2)

/-! ## Commands -/

/-- `if not run(...): raise RuntimeError()`. -/
def ensure (c : Systemctl) : ModeProg Unit := do
  let ok : Bool ← call (.systemctl c)
  if ok then return () else .fail ()

/-- `status`: `keys_ready` of what it returns. -/
def status : ModeProg Bool := do
  let configured : Option Bool ← call .readConfig
  let ready : Bool ← call .keysReady
  call .budgets
  let _ ← call .current
  let mode : Mode ← call .current
  if mode ≠ .cli ∧ configured = some true then do
    let _ ← call (.systemctl .isActive)
    return ready
  else return ready

/-- The configuration written and the worker restarted. -/
def reconfigure (generation : Bool) : ModeProg Unit := do
  call (.writeConfig generation)
  ensure .restartWorker

def reconfigureIf (otherwise generation : Bool) : ModeProg Unit :=
  if otherwise then reconfigure generation else return ()

/-- `automatic`, with what it found of the keys. -/
def automatic : ModeProg Bool := do
  let (codex, claude) : Bool × Bool ← call .probe
  call (.writeAccounts codex claude)
  ensure .startSecrets
  let ready : Bool ← call .keysReady
  let config : Option Bool ← call .readConfig
  if ready then do
    ensure .enableModel
    call (.writeMode .hybrid)
    reconfigureIf (config ≠ some true) true
    return true
  else do
    call (.writeMode .cli)
    reconfigureIf (config = some true) false
    ensure .stopModel
    return false

def waitForKeys : ℕ → ModeProg Unit
  | 0 => return ()
  | n + 1 => do
    let ready ← status
    if ready then return ()
    else do
      call .sleep
      waitForKeys n

def activate : ModeProg Unit := do
  let mode : Mode ← call .current
  if mode = .cli then .fail ()
  else do
    ensure .startSecrets
    waitForKeys 10
    let ready ← status
    if ¬ ready then .fail ()
    else do
      ensure .enableModel
      let _ ← call .readConfig
      reconfigure true

def cli : ModeProg Unit := do
  let previous : Mode ← call .current
  call (.writeMode .cli)
  let stopped : Bool ← call (.systemctl .disableModel)
  if ¬ stopped then do
    call (.writeMode previous)
    .fail ()
  else do
    let config : Option Bool ← call .readConfig
    reconfigureIf (config = some true) false
    call (.log .cli)

def api : ModeProg Unit := do
  let _ ← call .current
  let active : Bool ← call .scopes
  if active then .fail ()
  else do
    call (.writeMode .api)
    call (.log .api)

def hybrid : ModeProg Unit := do
  let _ ← call .current
  call (.writeMode .hybrid)
  call (.log .hybrid)

inductive Command where
  | cli
  | api
  | hybrid
  | activate
  | auto
deriving DecidableEq

/-- `main`, with what `auto` found of the keys. -/
def main : Command → ModeProg (Option Bool)
  | .cli => do
    cli
    let _ ← status
    return none
  | .api => do
    api
    let _ ← status
    return none
  | .hybrid => do
    hybrid
    let _ ← status
    return none
  | .activate => do
    activate
    let _ ← status
    return none
  | .auto => do
    let ready ← automatic
    call .memoryCapabilities
    let _ ← status
    return some ready

/-! ## What is claimed -/

/-- Commands that stopped anywhere, each of them with nothing that it wrote left to apply. -/
inductive Commands : Machine → Prop where
  | start (m : Machine) (h : m.worker.Current) (hu : m.worker.unapplied = false) : Commands m
  | stop {m m' : Machine} (c : Command) (h : Commands m) (hr : (main c).Reaches act m m')
      (hu : m'.worker.unapplied = false) : Commands m'

/-- The worker has the configuration, the mode `cli` has no model service, and a command that found
the keys leaves a worker that generates. -/
def Switched (m : Machine) (ready : Option Bool) : Prop :=
  m.worker.Current ∧ (m.current = .cli → m.model = false) ∧
    (ready = some true → m.model = true ∧ m.generates = true)

end OpsMode
