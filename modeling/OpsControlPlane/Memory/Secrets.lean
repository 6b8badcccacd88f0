import OpsControlPlane.Lib.Served

/-!
# Activation of the memory APIs

`run` takes the provider keys out of OpenBao, installs those that changed as encrypted credentials
and lets `reconcile` enable the providers that are ready. Either may restart the memory service,
which keeps the configuration and the credentials that it loaded when it last started. The calls run
one at a time, under a lock.

A credential file is the key that it decrypts to, and the configuration is what the reconciler reads
and rewrites of it. External commands may fail, and a restart may have succeeded although it fails.
-/

namespace OpsMemoryApi

open Calls

inductive Provider where
  | embedding
  | reranker
deriving DecidableEq

/-- The table of a provider. None is a table without `enabled`. -/
structure ApiTable where
  (url credential : String)
  enabled : Option Bool
deriving DecidableEq

structure Both (α : Type) where
  (embedding reranker : α)
deriving DecidableEq

def Both.of {α : Type} (b : Both α) : Provider → α
  | .embedding => b.embedding
  | .reranker => b.reranker

def Both.set {α : Type} (b : Both α) (a : α) : Provider → Both α
  | .embedding => { b with embedding := a }
  | .reranker => { b with reranker := a }

structure ServiceFiles where
  config : Both ApiTable
  stored : Both (Option String)
deriving DecidableEq

/-- The host: the service, the digests of the installed keys, what `status.json` says of the
providers, the keys in OpenBao by their references, and how often a restart was asked. -/
structure Host where
  service : Served ServiceFiles
  digests : Both (Option String)
  status : Option (Both Bool)
  vault : String → Option String
  restarts : ℕ

def Provider.credential : Provider → String
  | .embedding => "embedding-api-token"
  | .reranker => "reranker-api-token"

def siliconflow : String :=
  "kv-infra-shared/data/llm/siliconflow"

def reference : String → Option String
  | "https://api.jina.ai/v1/embeddings" => some "kv-infra-shared/data/llm/providers/jina"
  | "https://api.jina.ai/v1/rerank" => some "kv-infra-shared/data/llm/providers/jina"
  | "https://api.voyageai.com/v1/embeddings" => some "kv-infra-shared/data/llm/providers/voyage"
  | "https://api.cohere.com/v2/rerank" => some "kv-infra-shared/data/llm/providers/cohere"
  | "https://api.siliconflow.com/v1/embeddings" => some siliconflow
  | "https://api.siliconflow.com/v1/rerank" => some siliconflow
  | _ => none

def presets : Provider → List String
  | .embedding => ["https://api.jina.ai/v1/embeddings", "https://api.siliconflow.com/v1/embeddings",
      "https://api.voyageai.com/v1/embeddings"]
  | .reranker => ["https://api.jina.ai/v1/rerank", "https://api.siliconflow.com/v1/rerank",
      "https://api.cohere.com/v2/rerank"]

/-- What `resolve` takes for a provider credential. -/
def validKey (key : String) : Bool :=
  8 ≤ key.length ∧ key.length ≤ 4096 ∧ key.toList.all fun c => 33 ≤ c.toNat ∧ c.toNat ≤ 126

/-- The `enabled` line of a table rewritten, if it has one. -/
def ApiTable.enable (t : ApiTable) (ready : Bool) : ApiTable :=
  { t with enabled := t.enabled.map fun _ => ready }

/-! ## Operations -/

inductive SecretOp where
  /-- The marker of the managed credentials is there, and an administrator runs the call. -/
  | context
  | config
  /-- `vault.call('GET', reference)`, with the login before and the revocation after it. -/
  | fetch (reference : String)
  | digest (p : Provider)
  | isStored (p : Provider)
  | readStored (p : Provider)
  /-- `systemd-creds encrypt`. -/
  | encrypt (p : Provider) (key : String)
  | replaceStored (p : Provider) (key : String)
  | writeDigest (p : Provider) (value : String)
  /-- The credential file as it was before. -/
  | restore (p : Provider) (key : Option String)
  | writeStatus (providers : Both Bool)
  | managed
  /-- `MemoryConfig.from_toml`. -/
  | validate (tables : Both ApiTable)
  | replaceConfig (tables : Both ApiTable)
  /-- `systemctl restart ops-memory.service`: whether it returns 0. -/
  | restart
deriving DecidableEq

abbrev SecretOp.Reply : SecretOp → Type
  | .config => Both ApiTable
  | .fetch _ => Option String
  | .digest _ => Option String
  | .isStored _ => Bool
  | .readStored _ => Option String
  | .managed => Option (Both Bool)
  | .restart => Bool
  | _ => Unit

/-- The operation asks something outside, and may raise. -/
def SecretOp.external : SecretOp → Bool
  | .context => true
  | .fetch _ => true
  | .encrypt _ _ => true
  | .validate _ => true
  | .restart => true
  | _ => false

abbrev secretInterface : Interface :=
  ⟨SecretOp, fun o => Except Unit o.Reply⟩

abbrev SecretProg (α : Type) : Type :=
  Prog secretInterface Unit α

/-- Ask an operation, and raise as it raises. -/
def call (o : SecretOp) : SecretProg o.Reply := do
  let r : Except Unit o.Reply ← Prog.perform (I := secretInterface) o
  Prog.ofExcept r

/-- What the environment chooses at an operation. -/
structure SecretChoice where
  /-- It raises, if it asks something outside. -/
  raises : Bool
  succeeds : Bool
  /-- The service is started although the restart fails. -/
  starts : Bool
  marker : Bool
  /-- `status.json` is recent. -/
  recent : Bool

def Host.write (h : Host) (f : ServiceFiles → ServiceFiles) : Host :=
  { h with service := h.service.write (f h.service.disk) }

def Host.restarted (h : Host) (started : Bool) : Host :=
  { h with
    service := if started then h.service.restart else h.service
    restarts := h.restarts + 1 }

/-- What `managed_ready` reads. -/
def Host.managed (h : Host) (marker recent : Bool) : Option (Both Bool) :=
  if marker then some (if recent then h.status.getD ⟨false, false⟩ else ⟨false, false⟩) else none

/-- The answer of an operation that does not raise, and the host after it. -/
def SecretOp.run : (o : SecretOp) → SecretChoice → Host → o.Reply × Host
  | .context, _, h => ((), h)
  | .config, _, h => (h.service.disk.config, h)
  | .fetch reference, _, h => (h.vault reference, h)
  | .digest p, _, h => (h.digests.of p, h)
  | .isStored p, _, h => ((h.service.disk.stored.of p).isSome, h)
  | .readStored p, _, h => (h.service.disk.stored.of p, h)
  | .encrypt _ _, _, h => ((), h)
  | .replaceStored p key, _, h =>
    ((), h.write fun files => { files with stored := files.stored.set (some key) p })
  | .writeDigest p value, _, h => ((), { h with digests := h.digests.set (some value) p })
  | .restore p key, _, h =>
    ((), h.write fun files => { files with stored := files.stored.set key p })
  | .writeStatus providers, _, h => ((), { h with status := some providers })
  | .managed, x, h => (h.managed x.marker x.recent, h)
  | .validate _, _, h => ((), h)
  | .replaceConfig tables, _, h => ((), h.write fun files => { files with config := tables })
  | .restart, x, h => (x.succeeds, h.restarted (x.succeeds || x.starts))

def act (o : SecretOp) (x : SecretChoice) (h : Host) : Except Unit o.Reply × Host :=
  if x.raises ∧ o.external then
    (.error (), if o = .restart then h.restarted x.starts else h)
  else (.ok (o.run x h).1, (o.run x h).2)

/-! ## Calls -/

section calls

variable (sha256 : String → String)

/-- The credential and then its digest, in the `try` of `install`. -/
def replaceCredential (p : Provider) (key : String) : SecretProg Unit := do
  call (.encrypt p key)
  call (.replaceStored p key)
  call (.writeDigest p (sha256 key))

/-- `install` of one credential: whether it was replaced. -/
def install (p : Provider) (key : String) : SecretProg Bool := do
  let previous : Option String ← call (.digest p)
  let there : Bool ← call (.isStored p)
  if previous = some (sha256 key) ∧ there = true then return false
  else do
    let before : Option String ← call (.readStored p)
    let replaced ← Prog.attempt (replaceCredential sha256 p key)
    match replaced with
    | .ok () => return true
    | .error e => do
      call (.restore p before)
      .fail e

def resolve (reference : String) : SecretProg (Option String) := do
  let value : Option String ← call (.fetch reference)
  match value with
  | none => return none
  | some key => if validKey key then return some key else .fail ()

/-- What the loop of `run` does for a provider: whether it is ready, and whether its credential was
replaced. -/
def provide (url : String) (p : Provider) : SecretProg (Bool × Bool) :=
  match reference url with
  | none => .fail ()
  | some ref => do
    let key ← resolve ref
    match key with
    | none => return (false, false)
    | some key => do
      let rotated ← install sha256 p key
      return (true, rotated)

def provideSafely (url : String) (p : Provider) : SecretProg (Bool × Bool) := do
  let r ← Prog.attempt (provide sha256 url p)
  match r with
  | .ok r => return r
  | .error _ => return (false, false)

def desiredTable (managed : Option (Both Bool)) (p : Provider) (t : ApiTable) :
    SecretProg (ApiTable × Bool) :=
  if t.url ∈ presets p ∧ t.credential = p.credential then do
    let there : Bool ← call (.isStored p)
    let ready := there && (managed.map fun m => m.of p).getD true
    if t.enabled = some ready then return (t, false) else return (t.enable ready, true)
  else return (t, false)

def desired (managed : Option (Both Bool)) (config : Both ApiTable) :
    SecretProg (Both ApiTable × Bool) := do
  let (embedding, changed) ← desiredTable managed .embedding config.embedding
  let (reranker, changed') ← desiredTable managed .reranker config.reranker
  return (⟨embedding, reranker⟩, changed || changed')

/-- `memory_capabilities.reconcile`: whether it changed the configuration. -/
def reconcile : SecretProg Bool := do
  let previous : Both ApiTable ← call .config
  let managed : Option (Both Bool) ← call .managed
  let (config, changed) ← desired managed previous
  if changed then do
    call (.validate config)
    call (.replaceConfig config)
    let ok : Bool ← call .restart
    if ok then return true
    else do
      -- The configuration is put back, and the second restart is not checked.
      call (.replaceConfig previous)
      let _ ← call .restart
      .fail ()
  else return false

/-- The restart at the end of `run`. -/
def restartIf (rotated : Bool) : SecretProg Unit :=
  if rotated then do
    let ok : Bool ← call .restart
    if ok then return () else .fail ()
  else return ()

/-- What a call of `run` found. -/
structure Outcome where
  ready : Bool
  rotated : Bool
  changed : Bool
deriving DecidableEq

def run : SecretProg Outcome := do
  call .context
  let config : Both ApiTable ← call .config
  let (embedding, rotated) ← provideSafely sha256 config.embedding.url .embedding
  let (reranker, rotated') ← provideSafely sha256 config.reranker.url .reranker
  call (.writeStatus ⟨embedding, reranker⟩)
  let changed ← reconcile
  restartIf ((rotated || rotated') && !changed)
  return ⟨embedding && reranker, rotated || rotated', changed⟩

/-! ## What is claimed -/

/-- The digests are those of the credentials. -/
def Host.Tidy (h : Host) : Prop :=
  ∀ p value, h.digests.of p = some value →
    ∃ key, h.service.disk.stored.of p = some key ∧ sha256 key = value

/-- Calls that stopped anywhere, each of them with no file left that the service has not loaded.
The keys in OpenBao may be others from one call to the next. -/
inductive History : Host → Prop where
  | start (h : Host) (hcurrent : h.service.Current) (hu : h.service.unapplied = false)
      (htidy : h.Tidy sha256) : History h
  | rotate {h : Host} (vault : String → Option String) (hh : History h) :
      History { h with vault := vault }
  | run {h h' : Host} (hh : History h) (hr : (run sha256).Reaches act h h')
      (hu : h'.service.unapplied = false) : History h'
  | reconcile {h h' : Host} (hh : History h) (hr : reconcile.Reaches act h h')
      (hu : h'.service.unapplied = false) : History h'

/-- The service has loaded what is on the disk, and the credentials are the keys in OpenBao. -/
def Host.Converged (h : Host) : Prop :=
  h.service.Current ∧ ∀ p, ∃ ref, reference (h.service.disk.config.of p).url = some ref ∧
    (h.vault ref).isSome ∧ h.service.disk.stored.of p = h.vault ref

/-- What is claimed of the calls that follow. -/
def Activates (h : Host) : Prop :=
  (∀ o h', Prog.Ends act (run sha256) h o h' →
    (o.ready = true → h'.Converged) ∧
    (o.rotated = false → o.changed = false → h'.restarts = h.restarts)) ∧
  ∀ p key e h', (install sha256 p key).Finishes act h (.error e) h' →
    h'.service.disk.stored = h.service.disk.stored

end calls

end OpsMemoryApi
